import QjsFfi.ModuleMachine

namespace QjsFfi
open BinaryFloat Activation Histories

def eventsOf (history : List Record) : List Event := history.flatMap Record.events

def JsFrame.texts (frame : JsFrame) : List Nat :=
  frame.name.id :: (frame.strings.cells.take frame.fl).filterMap (Option.map CString.id)

def function_s.blocks (f : function_s) : List Nat := f.addr :: f.name.id :: f.args.toList.map Block.id

def Machine.texts (m : Machine) : List Nat := m.stack.flatMap JsFrame.texts
def Machine.scratch (m : Machine) : List Nat := m.stack.flatMap (fun frame => frame.inner.scratch)
def Machine.nodes (m : Machine) : List Nat := m.ctx.function_list.flatMap function_s.blocks

def Record.typeBlocks (r : Record) : List Nat := match r.action with | .init => blocks.taken r.events | _ => []

-- Over a whole history nothing is given back twice, and what is out belongs to a
-- suspended call, to a registered function or to the table of types.
structure Ledger (history : List Record) (m : Machine) (lost : List Nat) : Prop where
  texts : strings.Accounts m.ctx.fresh (eventsOf history) (m.texts++lost)
  blocks : blocks.Accounts m.ctx.fresh (eventsOf history) (m.scratch++(m.nodes++history.flatMap Record.typeBlocks))

theorem stringCells_texts (held : List CString) :
    ((stringCells held).take held.length).filterMap (Option.map CString.id) = held.map CString.id := by
  have cells : (stringCells held).take held.length = held.map some := by
    rw [stringCells,List.take_append_of_le_length (by simp),List.take_of_length_le (by simp)]
  rw [cells,List.filterMap_map]
  induction held with
  | nil => rfl
  | cons c rest ih => simp

theorem Suspended.texts (waiting : Suspended s frame held addr p) :
    frame.texts = frame.name.id :: held.map CString.id := by
  rw [JsFrame.texts,waiting.strings,waiting.count,stringCells_texts]

theorem nodeOf_blocks (addr : Nat) (p : Prototype) :
    (nodeOf addr p).blocks = List.range' addr (blockCount p.params) := by
  unfold nodeOf function_s.blocks blockCount
  cases p.params <;> simp [List.range']

theorem opened_custody (name : CString) (held : List CString) :
    strings.taken (opened name held) = name.id :: held.map CString.id ∧ strings.returned (opened name held) = [] ∧
      blocks.taken (opened name held) = [] ∧ blocks.returned (opened name held) = [] := by
  simp [opened,acquisitions,strings,blocks,Custody.taken,Custody.returned]

theorem closed_custody (name : CString) (held : List CString) :
    strings.taken (closed name held) = [] ∧ strings.returned (closed name held) = name.id :: held.reverse.map CString.id ∧
      blocks.taken (closed name held) = [] ∧ blocks.returned (closed name held) = [] := by
  simp [closed,releases,strings,blocks,Custody.taken,Custody.returned]

theorem malloc_custody (ids : List Nat) :
    strings.taken (ids.map Event.malloc) = [] ∧ strings.returned (ids.map Event.malloc) = [] ∧
      blocks.taken (ids.map Event.malloc) = ids ∧ blocks.returned (ids.map Event.malloc) = [] := by
  simp [strings,blocks,Custody.taken,Custody.returned]

theorem free_custody (ids : List Nat) :
    strings.taken (ids.map Event.free) = [] ∧ strings.returned (ids.map Event.free) = [] ∧
      blocks.taken (ids.map Event.free) = [] ∧ blocks.returned (ids.map Event.free) = ids := by
  simp [strings,blocks,Custody.taken,Custody.returned]

theorem call_texts (named : (argAt given 0).asCString s.fresh = some name) :
    name.id :: (callScan s given).held.map CString.id = List.range' s.fresh (1+(callScan s given).held.length) := by
  have first : name.id = s.fresh := asCString_id named
  have rest : (callScan s given).held.map CString.id = List.range' (s.fresh+1) (callScan s given).held.length :=
    scan_ids _ _
  rw [first,rest,Nat.add_comm 1]
  rfl

theorem opened_closed (middle : List Event) (ids : name.id :: held.map CString.id = List.range' n (1+held.length))
    (calm : strings.taken middle = [] ∧ strings.returned middle = [] ∧ blocks.taken middle = [] ∧ blocks.returned middle = []) :
    strings.Balanced (opened name held++middle++closed name held) ∧
      blocks.taken (opened name held++middle++closed name held) = [] ∧
      blocks.returned (opened name held++middle++closed name held) = [] ∧
      strings.taken (opened name held++middle++closed name held) = List.range' n (1+held.length) := by
  obtain ⟨taken,kept,untaken,unreturned⟩ := opened_custody name held
  obtain ⟨still,back,untaken',unreturned'⟩ := closed_custody name held
  refine ⟨Custody.Balanced.around ?_ kept ⟨calm.1,calm.2.1⟩ still ?_,?_,?_,?_⟩
  · rw [taken,ids]
    exact List.nodup_range'
  · rw [back,taken,List.map_reverse]
    exact (List.reverse_perm _).cons _
  · simp [untaken,untaken',calm]
  · simp [unreturned,unreturned',calm]
  · simp [taken,still,calm,ids]

theorem CallOutcome.balanced (outcome : CallOutcome s given (.inl r) t log) :
    strings.Balanced log ∧ blocks.taken log = [] ∧ blocks.returned log = [] ∧
      ∀ id ∈ strings.taken log, s.fresh ≤ id ∧ id < t.fresh := by
  cases outcome with
  | unnamed => exact ⟨⟨List.nodup_nil,List.Perm.refl _⟩,rfl,rfl,by simp [Custody.taken]⟩
  | unconverted name named failed =>
    have done := opened_closed [] (call_texts named) ⟨rfl,rfl,rfl,rfl⟩
    rw [List.append_nil] at done
    obtain ⟨balanced,untaken,unreturned,taken⟩ := done
    refine ⟨balanced,untaken,unreturned,?_⟩
    intro id member
    rw [taken] at member
    simpa using member
  | unknown name named converted missing =>
    obtain ⟨balanced,untaken,unreturned,taken⟩ := opened_closed [.warn "call_function: no such function"]
      (call_texts named) ⟨rfl,rfl,rfl,rfl⟩
    refine ⟨balanced,untaken,unreturned,?_⟩
    intro id member
    rw [taken] at member
    simpa using member

structure Opening (s : Ctx) (frame : JsFrame) (t : Ctx) (log : List Event) : Prop where
  texts : strings.taken log = frame.texts
  kept : strings.returned log = []
  scratch : blocks.taken log = frame.inner.scratch
  held : blocks.returned log = []
  first : ∃ n, frame.texts = List.range' s.fresh n ∧ s.fresh+n ≤ t.fresh
  second : ∃ base n, frame.inner.scratch = List.range' base n ∧ s.fresh ≤ base ∧ base+n ≤ t.fresh

theorem CallOutcome.opening (outcome : CallOutcome s given (.inr frame) t log) : Opening s frame t log := by
  cases outcome with
  | dispatched name named converted addr p found few =>
    let r := callScan s given
    obtain ⟨taken,kept,untaken,unreturned⟩ := opened_custody name r.held
    obtain ⟨quiet,still,mallocs,held⟩ := malloc_custody (List.range' (s.fresh+1+r.held.length) (scratchCount p))
    have texts : (frameOf s addr p name r).texts = List.range' s.fresh (1+r.held.length) := by
      rw [(frameOf_suspended found r 0 false).texts]
      exact call_texts named
    have scratch : (frameOf s addr p name r).inner.scratch = List.range' (s.fresh+1+r.held.length) (scratchCount p) :=
      innerFrame_scratch
    have calm : strings.taken [.ffi_call (requestOf addr p r.carried)] = [] ∧
        strings.returned [.ffi_call (requestOf addr p r.carried)] = [] ∧
        blocks.taken [.ffi_call (requestOf addr p r.carried)] = [] ∧
        blocks.returned [.ffi_call (requestOf addr p r.carried)] = [] := ⟨rfl,rfl,rfl,rfl⟩
    unfold scratchLog
    refine ⟨?_,?_,?_,?_,⟨_,texts,?_⟩,⟨_,_,scratch,?_,?_⟩⟩
    · rw [Custody.taken_append,Custody.taken_append,taken,quiet,calm.1,texts]
      simpa using call_texts named
    · rw [Custody.returned_append,Custody.returned_append,kept,still,calm.2.1]
      rfl
    · rw [Custody.taken_append,Custody.taken_append,untaken,mallocs,calm.2.2.1,scratch]
      simp
    · rw [Custody.returned_append,Custody.returned_append,unreturned,held,calm.2.2.2]
      rfl
    · simp only [Ctx.bump_fresh,r]
      omega
    · omega
    · simp only [Ctx.bump_fresh,r]
      omega

theorem finish_custody (waiting : Suspended s frame held addr p) :
    strings.taken (frame.inner.scratch.map .free++closed frame.name held) = [] ∧
      (strings.returned (frame.inner.scratch.map .free++closed frame.name held)).Perm frame.texts ∧
      blocks.taken (frame.inner.scratch.map .free++closed frame.name held) = [] ∧
      blocks.returned (frame.inner.scratch.map .free++closed frame.name held) = frame.inner.scratch := by
  obtain ⟨untaken,back,calm,nothing⟩ := closed_custody frame.name held
  obtain ⟨quiet,still,idle,freed⟩ := free_custody frame.inner.scratch
  refine ⟨by simp [untaken,quiet],?_,by simp [calm,idle],by simp [nothing,freed]⟩
  rw [Custody.returned_append,still,back,waiting.texts,List.map_reverse]
  exact (List.reverse_perm _).cons _

theorem eventsOf_append (history : List Record) (label : Record) :
    eventsOf (history++[label]) = eventsOf history++label.events := by
  simp [eventsOf]

theorem typeBlocks_other (history : List Record) {label : Record} (other : label.typeBlocks = []) :
    (history++[label]).flatMap Record.typeBlocks = history.flatMap Record.typeBlocks := by
  rw [List.flatMap_append,List.flatMap_singleton,other,List.append_nil]

theorem ledger_start : Ledger [] .start [] := ⟨Custody.Accounts.start _ _,Custody.Accounts.start _ _⟩

theorem Ledger.settled (ledger : Ledger history m lost) (fresh : m.ctx.fresh ≤ s.fresh)
    (list : s.function_list = m.ctx.function_list) (other : label.typeBlocks = []) (distinct : (strings.taken label.events).Nodup)
    (texts : (strings.returned label.events++more).Perm (strings.taken label.events))
    (named : ∀ id ∈ strings.taken label.events, m.ctx.fresh ≤ id ∧ id < s.fresh)
    (heap : QjsFfi.blocks.Balanced label.events)
    (made : ∀ id ∈ QjsFfi.blocks.taken label.events, m.ctx.fresh ≤ id ∧ id < s.fresh) :
    Ledger (history++[label]) ⟨s,m.stack⟩ (lost++more) := by
  have nodes : (⟨s,m.stack⟩ : Machine).nodes = m.nodes := by simp only [Machine.nodes,list]
  refine ⟨?_,?_⟩
  · rw [eventsOf_append]
    refine ledger.texts.extend fresh named distinct ?_
    have out : ((⟨s,m.stack⟩ : Machine).texts++(lost++more)) = m.texts++lost++more := by simp [Machine.texts]
    rw [out]
    exact (List.perm_append_comm_assoc _ _ _).trans (texts.append_left _)
  · rw [eventsOf_append,nodes,typeBlocks_other history other]
    exact ledger.blocks.within fresh made heap

theorem Ledger.balanced (ledger : Ledger history m lost) (fresh : m.ctx.fresh ≤ s.fresh)
    (list : s.function_list = m.ctx.function_list) (other : label.typeBlocks = []) (texts : strings.Balanced label.events)
    (named : ∀ id ∈ strings.taken label.events, m.ctx.fresh ≤ id ∧ id < s.fresh)
    (heap : QjsFfi.blocks.Balanced label.events)
    (made : ∀ id ∈ QjsFfi.blocks.taken label.events, m.ctx.fresh ≤ id ∧ id < s.fresh) :
    Ledger (history++[label]) ⟨s,m.stack⟩ lost := by
  have all : (strings.returned label.events++[]).Perm (strings.taken label.events) := by
    rw [List.append_nil]
    exact texts.2
  have settled := ledger.settled fresh list other texts.1 all named heap made
  rwa [List.append_nil] at settled

theorem Ledger.caught (ledger : Ledger history m lost) (pending : Bool) :
    Ledger (history++[⟨.caught,[],none⟩]) ⟨{m.ctx with pending := pending},m.stack⟩ lost :=
  ledger.balanced (Nat.le_refl _) rfl rfl ⟨List.nodup_nil,List.Perm.refl _⟩ (by simp [Custody.taken]) ⟨List.nodup_nil,List.Perm.refl _⟩
    (by simp [Custody.taken])

theorem Ledger.initialised (ledger : Ledger history m lost) (n : ℕ) (head : List ffi_type_s) :
    Ledger (history++[⟨.init,(List.range' m.ctx.fresh n).map .malloc,none⟩])
      ⟨{m.ctx.bump n false with ffi_type_head := head},m.stack⟩ lost := by
  obtain ⟨quiet,still,taken,kept⟩ := malloc_custody (List.range' m.ctx.fresh n)
  have grown : m.ctx.fresh ≤ m.ctx.fresh+n := Nat.le_add_right _ _
  refine ⟨?_,?_⟩
  · rw [eventsOf_append]
    refine ledger.texts.within grown ?_ ?_
    · simp [quiet]
    · rw [Custody.Balanced,quiet,still]
      exact ⟨List.nodup_nil,List.Perm.refl _⟩
  · rw [eventsOf_append]
    refine ledger.blocks.opens grown ?_ ?_ kept ?_
    · intro id member
      rw [taken,List.mem_range'_1] at member
      exact member
    · rw [taken]
      exact List.nodup_range'
    · have types : (history++[(⟨.init,(List.range' m.ctx.fresh n).map .malloc,none⟩ : Record)]).flatMap Record.typeBlocks =
          history.flatMap Record.typeBlocks++QjsFfi.blocks.taken ((List.range' m.ctx.fresh n).map .malloc) := by
        rw [List.flatMap_append,List.flatMap_singleton]
        rfl
      rw [types,List.append_assoc,List.append_assoc]
      exact List.Perm.refl _

theorem Ledger.registers (ledger : Ledger history m lost) (trace : DefineTrace m.ctx n base (some p) log) :
    Ledger (history++[⟨.define ffi given,log,r⟩]) ⟨defined m.ctx n raised base (some p),m.stack⟩ lost := by
  have grown : m.ctx.fresh ≤ m.ctx.fresh+n := Nat.le_add_right _ _
  obtain ⟨taken,kept⟩ := trace.kept p rfl
  refine ⟨?_,?_⟩
  · rw [eventsOf_append]
    exact ledger.texts.within grown trace.texts trace.strings
  · rw [eventsOf_append,typeBlocks_other history rfl]
    apply ledger.blocks.opens grown trace.within (taken ▸ List.nodup_range') kept
    have nodes : (⟨defined m.ctx n raised base (some p),m.stack⟩ : Machine).nodes = (nodeOf base p).blocks++m.nodes := by
      simp [Machine.nodes,defined]
    rw [taken,← nodeOf_blocks,nodes,List.append_assoc,List.append_assoc]
    exact List.perm_append_comm.append_left _

theorem Ledger.suspends (ledger : Ledger history m lost) (outcome : CallOutcome m.ctx given (.inr frame) s log) :
    Ledger (history++[⟨.call given,log,none⟩]) ⟨s,frame :: m.stack⟩ lost := by
  have opening := outcome.opening
  obtain ⟨n,texts,below⟩ := opening.first
  obtain ⟨base,k,scratch,above,under⟩ := opening.second
  obtain ⟨_,_,state⟩ := outcome.state
  have grown : m.ctx.fresh ≤ s.fresh := by omega
  have list : s.function_list = m.ctx.function_list := by rw [state]; rfl
  refine ⟨?_,?_⟩
  · rw [eventsOf_append]
    refine ledger.texts.opens grown ?_ ?_ opening.kept ?_
    · intro id member
      rw [opening.texts,texts,List.mem_range'_1] at member
      exact ⟨member.1,Nat.lt_of_lt_of_le member.2 below⟩
    · rw [opening.texts,texts]
      exact List.nodup_range'
    · have out : (⟨s,frame :: m.stack⟩ : Machine).texts++lost = frame.texts++(m.texts++lost) := by simp [Machine.texts]
      rw [opening.texts,out]
      exact List.perm_append_comm
  · rw [eventsOf_append,typeBlocks_other history rfl]
    refine ledger.blocks.opens grown ?_ ?_ opening.held ?_
    · intro id member
      rw [opening.scratch,scratch,List.mem_range'_1] at member
      exact ⟨Nat.le_trans above member.1,Nat.lt_of_lt_of_le member.2 under⟩
    · rw [opening.scratch,scratch]
      exact List.nodup_range'
    · have nodes : (⟨s,frame :: m.stack⟩ : Machine).nodes = m.nodes := by simp only [Machine.nodes,list]
      have added : (⟨s,frame :: m.stack⟩ : Machine).scratch = frame.inner.scratch++m.scratch := rfl
      rw [opening.scratch,nodes,added,List.append_assoc]
      exact List.perm_append_comm

theorem Ledger.resumes (ledger : Ledger history m lost) (innermost : m.stack = frame :: rest)
    (waiting : Suspended m.ctx frame held addr p) :
    Ledger (history++[⟨.returned native,frame.inner.scratch.map .free++closed frame.name held,r⟩]) ⟨m.ctx,rest⟩ lost := by
  obtain ⟨untaken,back,idle,freed⟩ := finish_custody waiting
  refine ⟨?_,?_⟩
  · rw [eventsOf_append]
    apply ledger.texts.closes untaken
    have out : m.texts++lost = frame.texts++((⟨m.ctx,rest⟩ : Machine).texts++lost) := by simp [Machine.texts,innermost]
    rw [out]
    exact back.append_right _
  · rw [eventsOf_append,typeBlocks_other history rfl]
    apply ledger.blocks.closes idle
    have out : m.scratch = frame.inner.scratch++(⟨m.ctx,rest⟩ : Machine).scratch := by simp [Machine.scratch,innermost]
    rw [freed,out,List.append_assoc]
    exact List.Perm.refl _

theorem Ledger.exported (ledger : Ledger history m lost) (trace : ExportTrace m.ctx n log more) :
    Ledger (history++[⟨.exported host e given,log,r⟩]) ⟨m.ctx.bump n raised,m.stack⟩ (lost++more) := by
  obtain ⟨calm,nothing⟩ := trace.blocks
  refine ledger.settled (Nat.le_add_right _ _) rfl rfl trace.distinct trace.settled trace.texts ?_ ?_
  · refine ⟨by simp [calm],?_⟩
    rw [calm,nothing]
  · simp [calm]

theorem Ledger.kept (ledger : Ledger history m lost) (sound : Sound history m) (step : Step m label next)
    (other : ∀ host e given, label.action ≠ .exported host e given) : Ledger (history++[label]) next lost := by
  cases step with
  | init ran =>
    obtain ⟨n,rfl,rfl,_⟩ := js_init_parts ran
    exact ledger.initialised n _
  | caught => exact ledger.caught false
  | exported => exact absurd rfl (other _ _ _)
  | define ran =>
    rename_i ffi given r s log
    obtain ⟨rfl,n,base,rfl,trace⟩ := define_parts ran
    cases made : (defineOutcome ffi m.ctx given).2 with
    | none =>
      rw [made] at trace
      exact ledger.balanced (Nat.le_add_right _ _) rfl rfl trace.strings trace.texts (trace.dropped rfl) trace.within
    | some p =>
      rw [made] at trace
      exact ledger.registers trace
  | refused ran =>
    have outcome := call_parts sound.registered ran
    obtain ⟨balanced,untaken,unreturned,fresh⟩ := outcome.balanced
    obtain ⟨n,raised,rfl⟩ := outcome.state
    refine ledger.balanced (Nat.le_add_right _ _) rfl rfl balanced fresh ?_ ?_
    · refine ⟨by simp [untaken],?_⟩
      rw [untaken,unreturned]
    · simp [untaken]
  | entered ran => exact ledger.suspends (call_parts sound.registered ran)
  | returned innermost ran =>
    rename_i frame rest native r s log
    obtain ⟨held,addr,p,waiting⟩ := sound.frames frame (innermost ▸ List.mem_cons_self)
    obtain ⟨rfl,rfl,rfl⟩ := ran.unique (finish_gives sound.addresses waiting native)
    exact ledger.resumes innermost waiting

theorem Ledger.step (ledger : Ledger history m lost) (sound : Sound history m) (step : Step m label next) :
    ∃ more, Ledger (history++[label]) next more := by
  cases id step with
  | exported ran =>
    rename_i r s log host e given
    obtain ⟨n,_,more,gives,trace,_⟩ := e.run_gives host given m.ctx
    obtain ⟨rfl,rfl,rfl⟩ := ran.unique gives
    exact ⟨_,ledger.exported trace⟩
  | _ => exact ⟨_,ledger.kept sound step (by simp)⟩

theorem ledger_reached (reached : Reached history m) : ∃ lost, Ledger history m lost := by
  unfold Reached at reached
  induction reached with
  | nil => exact ⟨[],ledger_start⟩
  | snoc prior last ih =>
    obtain ⟨lost,ledger⟩ := ih
    exact ledger.step (sound_reached prior) last

theorem CallOutcome.closing (outcome : CallOutcome s given (.inr frame) t log) (waiting : Suspended u frame held addr p) :
    strings.Balanced (log++(frame.inner.scratch.map .free++closed frame.name held)) ∧
      blocks.Balanced (log++(frame.inner.scratch.map .free++closed frame.name held)) := by
  have opening := outcome.opening
  obtain ⟨n,texts,_⟩ := opening.first
  obtain ⟨base,k,scratch,_,_⟩ := opening.second
  obtain ⟨untaken,back,idle,freed⟩ := finish_custody waiting
  refine ⟨⟨?_,?_⟩,⟨?_,?_⟩⟩
  · rw [Custody.taken_append,untaken,List.append_nil,opening.texts,texts]
    exact List.nodup_range'
  · rw [Custody.taken_append,Custody.returned_append,untaken,opening.kept,opening.texts,List.append_nil]
    exact back
  · rw [Custody.taken_append,idle,List.append_nil,opening.scratch,scratch]
    exact List.nodup_range'
  · rw [Custody.taken_append,Custody.returned_append,idle,opening.held,opening.scratch,freed,List.append_nil]
    exact List.Perm.refl _

theorem CallOutcome.pointers {i : Nat} (outcome : CallOutcome s given (.inr frame) t log)
    (called : .ffi_call request ∈ log) (present : (callArguments given)[i]? = some v) (string : JS_IsString v = true)
    (read : request.values[i]? = some (FfiValue.pointer w)) : ∃ id address, .acquire id address ∈ log ∧ address.word = w := by
  cases outcome with
  | dispatched name named converted addr p found few =>
    have same : request = requestOf addr p (callScan s given).carried := by
      simpa [opened,acquisitions,scratchLog] using called
    rw [same,requestOf,valuesOf,List.getElem?_mapIdx] at read
    obtain ⟨t,_,delivers⟩ := Option.map_eq_some_iff.mp read
    obtain ⟨text,held,carries⟩ := scan_holds converted string (List.mem_of_getElem? present)
    have own : argOf (callScan s given).carried i = .integral text.address.word :=
      Option.some.inj ((scan_argOf converted present).symm.trans carries)
    rw [own] at delivers
    have word : text.address.word = w := by
      cases t <;> simp only [delivered,FfiValue.pointer.injEq,reduceCtorEq] at delivers
      exact delivers
    refine ⟨text.id,text.address,?_,word⟩
    simp only [opened,acquisitions,List.mem_append,List.mem_cons,List.mem_map]
    exact .inl (.inl (.inr ⟨text,held,rfl⟩))

theorem call_lifetimes (reached : Reached history m) (given : List JSValueConst) :
    (∀ log r next, Step m ⟨.call given,log,some r⟩ next → strings.Balanced log ∧ blocks.Balanced log) ∧
    ∀ opening entered, Step m ⟨.call given,opening,none⟩ entered →
      (∀ request (i : Nat) v w, .ffi_call request ∈ opening → (callArguments given)[i]? = some v → JS_IsString v = true →
        request.values[i]? = some (FfiValue.pointer w) → ∃ id address, .acquire id address ∈ opening ∧ address.word = w) ∧
      (∀ inside during, Runs Step entered inside during → entered.stack <:+ during.stack →
        let past := eventsOf (history++[⟨.call given,opening,none⟩]++inside)
        (∀ id ∈ strings.taken opening, strings.Live past id) ∧ ∀ id ∈ blocks.taken opening, blocks.Live past id) ∧
      ∀ inside suspended native closing value after, Runs Step entered inside suspended →
        suspended.stack = entered.stack → Step suspended ⟨.returned native,closing,some value⟩ after →
        strings.Balanced (opening++closing) ∧ blocks.Balanced (opening++closing) := by
  have sound := sound_reached reached
  refine ⟨?_,?_⟩
  · intro log r next step
    cases step with
    | refused ran =>
      obtain ⟨balanced,untaken,unreturned,_⟩ := (call_parts sound.registered ran).balanced
      exact ⟨balanced,by simp [untaken],by rw [untaken,unreturned]⟩
  · intro opening entered step
    cases id step with
    | entered ran =>
      rename_i frame s
      have outcome := call_parts sound.registered ran
      refine ⟨fun request i v w called present string read => outcome.pointers called present string read,?_,?_⟩
      · intro inside during nested deeper past
        obtain ⟨lost,ledger⟩ := ledger_reached (Runs.append (.snoc reached step) nested)
        have member : frame ∈ during.stack := deeper.subset List.mem_cons_self
        refine ⟨?_,?_⟩
        · intro handle taken
          rw [outcome.opening.texts] at taken
          exact ledger.texts.live (List.mem_append_left _ (List.mem_flatMap.mpr ⟨frame,member,taken⟩))
        · intro handle taken
          rw [outcome.opening.scratch] at taken
          exact ledger.blocks.live (List.mem_append_left _ (List.mem_flatMap.mpr ⟨frame,member,taken⟩))
      · intro inside suspended native closing value after nested level back
        have later := sound_reached (Runs.append (.snoc reached step) nested)
        cases back with
        | returned innermost gave =>
          rw [level] at innermost
          obtain ⟨rfl,_⟩ := List.cons.inj innermost
          obtain ⟨held,addr,p,waiting⟩ := later.frames frame (level ▸ List.mem_cons_self)
          obtain ⟨_,_,rfl⟩ := gave.unique (finish_gives later.addresses waiting native)
          exact outcome.closing waiting

theorem call_lifetimes_abs :
    (∀ request (i : Nat) v w, .ffi_call request ∈ absOpening → (callArguments absCall)[i]? = some v →
      JS_IsString v = true → request.values[i]? = some (FfiValue.pointer w) →
      ∃ id address, .acquire id address ∈ absOpening ∧ address.word = w) ∧
    (∀ inside during, Runs Step absCalled inside during → absCalled.stack <:+ during.stack →
      let past := eventsOf (absHistory++[⟨.call absCall,absOpening,none⟩]++inside)
      (∀ id ∈ strings.taken absOpening, strings.Live past id) ∧ ∀ id ∈ blocks.taken absOpening, blocks.Live past id) ∧
    ∀ inside suspended native closing value after, Runs Step absCalled inside suspended →
      suspended.stack = absCalled.stack → Step suspended ⟨.returned native,closing,some value⟩ after →
      strings.Balanced (absOpening++closing) ∧ blocks.Balanced (absOpening++closing) :=
  (call_lifetimes abs_reached absCall).2 _ _ abs_entered

end QjsFfi
