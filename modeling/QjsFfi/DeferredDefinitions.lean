import QjsFfi.ForeignTables

namespace QjsFfi
open BinaryFloat Activation Histories Automata

-- cterm of term.js: the address of each name. dlerror is not imported there, so the
-- first name that is not found ends the loading with a ReferenceError.
def cterm (l : Loading) : List String → C (Option (List (String × JSValue)))
  | [] => pure (some [])
  | s :: rest => do
    let fp ← js_dlsym l.host [l.RTLD_DEFAULT,l.literal s]
    if fp = .null ∨ fp = .exception then pure none
    else do
      let more ← cterm l rest
      pure (more.map (fun o => (s,fp) :: o))

def Loading.address (l : Loading) (name : String) : JSValue := dlsymValue l.host [l.RTLD_DEFAULT,l.literal name]

theorem Serves.cterm (serves : Serves history m s) (ran : Gives (cterm l names) m.ctx (some o) t log) :
    o = names.map (fun name => (name,l.address name)) ∧ (∀ name ∈ names, l.address name ≠ .null) ∧
      ∃ loading, Serves (history++loading) ⟨t,m.stack⟩ s := by
  induction names generalizing history m o log with
  | nil =>
    cases ran
    exact ⟨rfl,by simp,[],by rwa [List.append_nil]⟩
  | cons name rest ih =>
    obtain ⟨fp,u,early,late,asks,onward,_⟩ := ran.unbind
    obtain ⟨_,_,gives,_⟩ := js_dlsym_gives l.host [l.RTLD_DEFAULT,l.literal name] m.ctx
    obtain ⟨value,_,_⟩ := asks.unique gives
    have found : fp = l.address name := value
    subst found
    by_cases missing : l.address name = .null ∨ l.address name = .exception
    · rw [if_pos missing] at onward
      cases onward
    · rw [if_neg missing] at onward
      obtain ⟨present,normal⟩ := not_or.mp missing
      obtain ⟨more,v,later,last,loads,finish,_⟩ := onward.unbind
      cases more with
      | none => cases finish
      | some more =>
        cases finish
        have asked : Step m ⟨.exported l.host .dlsym [l.RTLD_DEFAULT,l.literal name],early,some (l.address name)⟩ ⟨u,m.stack⟩ :=
          .exported asks
        obtain ⟨table,others,closing,after⟩ := ih (serves.asked asked normal) loads
        rw [List.append_assoc] at after
        refine ⟨by rw [table,List.map_cons],?_,_,after⟩
        intro other member
        rcases List.mem_cons.mp member with rfl | later
        · exact present
        · exact others other later

theorem cterm_gives {names : List String} (l : Loading) (found : ∀ name ∈ names, ¬ (l.address name = .null ∨ l.address name = .exception))
    (s : Ctx) : ∃ t log, Gives (cterm l names) s (some (names.map (fun name => (name,l.address name)))) t log := by
  induction names generalizing s with
  | nil => exact ⟨_,_,Gives.pure⟩
  | cons name rest ih =>
    obtain ⟨n,_,asks,_⟩ := js_dlsym_gives l.host [l.RTLD_DEFAULT,l.literal name] s
    obtain ⟨t,_,later⟩ := ih (fun other member => found other (List.mem_cons_of_mem _ member))
      (s.bump n (decide (dlsymValue l.host [l.RTLD_DEFAULT,l.literal name] = .exception)))
    apply Exists.intro t
    apply Exists.intro
    apply asks.bind
    have own : ¬ (dlsymValue l.host [l.RTLD_DEFAULT,l.literal name] = .null ∨
      dlsymValue l.host [l.RTLD_DEFAULT,l.literal name] = .exception) := found name List.mem_cons_self
    rw [if_neg own]
    exact later.bind Gives.pure

-- define(name, cterm[name], abi, ...params)
def deferredGiven (l : Loading) (o : List (String × JSValue)) (row : Syscall) : List JSValueConst :=
  [l.literal row.name,((o.lookup row.name).getD .undefined).argument,JSValue.null.argument,l.literal row.ret]++row.args.map l.literal

theorem lookup_address {names : List String} (listed : name ∈ names) (l : Loading) :
    (names.map (fun name => (name,l.address name))).lookup name = some (l.address name) := by
  induction names with
  | nil => cases listed
  | cons other rest ih =>
    by_cases same : name = other
    · subst same
      simp
    · have later : name ∈ rest := (List.mem_cons.mp listed).resolve_left same
      simpa [List.lookup_cons,beq_false_of_ne same] using ih later

theorem deferredGiven_given {names : List String} (listed : row.name ∈ names) (l : Loading) :
    deferredGiven l (names.map (fun name => (name,l.address name))) row = l.given row := by
  rw [deferredGiven,lookup_address listed]
  rfl

-- What a script does: it goes through a closure of the table, or uses the module otherwise.
inductive Use where
  | through (row : Syscall) (args : List JSValueConst)
  | other (a : Action)

structure Used where
  use : Use
  defines : List Record
  last : Record

def Used.observed (u : Used) : Observed := u.last.observed

def Action.target : Action → Option String
  | .define _ given | .call given => (argAt given 0).cstring
  | _ => none

-- Not a define or a call of a name of the table.
def Action.outside (rows : List Syscall) (a : Action) : Bool := rows.all (fun row => a.target ≠ some row.name)
def Use.outside (rows : List Syscall) : Use → Bool | .through _ _ => true | .other a => a.outside rows

def Action.declared : Action → Option String
  | .define _ given => (argAt given 0).cstring
  | _ => none
def Use.declared : Use → Option String | .through _ _ => none | .other a => a.declared

-- The closures of def, each with its own flag.
structure Deferred where
  machine : Machine
  defined : Syscall → Bool

inductive DeferredStep (l : Loading) (o : List (String × JSValue)) (rows : List Syscall) : Deferred → Used → Deferred → Prop where
  | first (listed : row ∈ rows) (new : d.defined row = false)
    (defines : Step d.machine ⟨.define l.ffi (deferredGiven l o row),log,answer⟩ middle)
    (calls : Step middle ⟨.call ((l.closure row).arguments args),opening,r⟩ next) :
    DeferredStep l o rows d ⟨.through row args,[⟨.define l.ffi (deferredGiven l o row),log,answer⟩],
      ⟨.call ((l.closure row).arguments args),opening,r⟩⟩ ⟨next,Function.update d.defined row true⟩
  | again (listed : row ∈ rows) (old : d.defined row = true)
    (calls : Step d.machine ⟨.call ((l.closure row).arguments args),opening,r⟩ next) :
    DeferredStep l o rows d ⟨.through row args,[],⟨.call ((l.closure row).arguments args),opening,r⟩⟩ ⟨next,d.defined⟩
  | other (step : Step d.machine label next) : DeferredStep l o rows d ⟨.other label.action,[],label⟩ ⟨next,d.defined⟩

inductive PromptStep (l : Loading) (rows : List Syscall) : Machine → Used → Machine → Prop where
  | through (listed : row ∈ rows) (calls : Step m ⟨.call ((l.closure row).arguments args),opening,r⟩ next) :
    PromptStep l rows m ⟨.through row args,[],⟨.call ((l.closure row).arguments args),opening,r⟩⟩ next
  | other (step : Step m label next) : PromptStep l rows m ⟨.other label.action,[],label⟩ next

-- What both are for where the script leaves the names of the table to the closures: a
-- table that has every row from the start.
def useNext (l : Loading) (rows : List Syscall) (s : Purpose) : Use → Option (Purpose × Observed)
  | .through row args => if row ∈ rows then some (s.call ((l.closure row).arguments args)) else none
  | .other a => if a.outside rows then s.next a else none

theorem settled_outside {rows : List Syscall} (outside : ∀ row ∈ rows, row.name ≠ name) (l : Loading) (s : Purpose) :
    (s.settled l rows).table name = s.table name := by
  simp [Purpose.settled,promised_none outside]

theorem call_settled {rows : List Syscall} (s : Purpose)
    (kept : ∀ name, (argAt given 0).cstring = some name → (s.settled l rows).table name = s.table name) :
    (s.settled l rows).call given = ((s.call given).1.settled l rows,(s.call given).2) := by
  unfold Purpose.call
  cases named : (argAt given 0).cstring with
  | none => rfl
  | some name =>
    simp only [kept name named]
    split
    · cases s.table name <;> rfl
    · rfl

theorem made_name {s : Purpose} (made : s.made ffi given = some p) : (argAt given 0).cstring = some p.name := by
  unfold Purpose.made at made
  split at made
  · obtain ⟨h,header,name,_⟩ := spelled_parts (Option.filter_eq_some_iff.mp made).1
    exact name ▸ defineHeader_name header
  · cases made

theorem made_settled {rows : List Syscall} (s : Purpose)
    (kept : ∀ name, (argAt given 0).cstring = some name → (s.settled l rows).table name = s.table name) :
    (s.settled l rows).made ffi given = s.made ffi given ∧ (s.settled l rows).known given = s.known given := by
  have used : ∀ h, defineHeader given = some h → (s.settled l rows).table h.name = s.table h.name :=
    fun h header => kept h.name (defineHeader_name header)
  refine ⟨?_,?_⟩
  · cases made : spelled ffi given with
    | none => simp [Purpose.made,made]
    | some p =>
      obtain ⟨h,header,name,_⟩ := spelled_parts made
      have same := used h header
      rw [← name] at same
      simp only [Purpose.made,made,Option.filter_some,same]
      rfl
  · unfold Purpose.known
    cases header : defineHeader given with
    | none => rfl
    | some h =>
      rw [Option.bind_some,Option.bind_some,used h header]

theorem defined_settled {rows : List Syscall} (s : Purpose) (made : Option Prototype) (raised : Bool)
    (outside : ∀ p, made = some p → ∀ row ∈ rows, row.name ≠ p.name) :
    (s.settled l rows).defined made raised = (s.defined made raised).settled l rows := by
  cases made with
  | none => rfl
  | some p =>
    simp only [Purpose.defined,Purpose.settled,Purpose.mk.injEq,true_and,and_true]
    funext name
    by_cases same : name = p.name
    · subst same
      simp
    · simp [Function.update_of_ne same]

theorem outside_names {rows : List Syscall} {a : Action} (outside : a.outside rows = true) (target : a.target = some name) :
    ∀ row ∈ rows, row.name ≠ name := by
  intro row member same
  have apart := List.all_eq_true.mp outside row member
  simp [target,same] at apart

theorem declared_target {a : Action} (declared : a.declared = some name) : a.target = some name := by
  cases a with
  | define => exact declared
  | _ => cases declared

theorem next_settled {rows : List Syscall} (s : Purpose) (outside : a.outside rows = true) :
    (s.settled l rows).next a = (s.next a).map (fun answer => (answer.1.settled l rows,answer.2)) := by
  have kept : ∀ name, a.target = some name → (s.settled l rows).table name = s.table name :=
    fun name target => settled_outside (outside_names outside target) l s
  cases a with
  | init | exported | caught => rfl
  | returned native =>
    simp only [Purpose.next,Purpose.settled]
    cases s.waiting <;> rfl
  | call given => exact congrArg some (call_settled s kept)
  | define ffi given =>
    obtain ⟨made,known⟩ : (s.settled l rows).made ffi given = s.made ffi given ∧ (s.settled l rows).known given = s.known given :=
      made_settled s kept
    simp only [Purpose.next,Purpose.define,made,known,Option.map_some]
    rw [defined_settled]
    intro p same
    exact outside_names outside (made_name same)

theorem next_keeps {s t : Purpose} {a : Action} (answer : s.next a = some (t,o)) :
    (s.initialised = true → t.initialised = true) ∧ ∀ name, a.declared ≠ some name → t.table name = s.table name := by
  cases a with
  | init =>
    cases answer
    exact ⟨fun _ => rfl,fun _ _ => rfl⟩
  | exported | caught =>
    cases answer
    exact ⟨id,fun _ _ => rfl⟩
  | returned native =>
    simp only [Purpose.next] at answer
    split at answer
    · cases answer
    · cases answer
      exact ⟨id,fun _ _ => rfl⟩
  | call given =>
    have same : s.call given = (t,o) := Option.some.inj answer
    unfold Purpose.call at same
    repeat' split at same
    all_goals
      cases same
      exact ⟨id,fun _ _ => rfl⟩
  | define ffi given =>
    cases answer
    refine ⟨id,?_⟩
    intro name other
    cases made : s.made ffi given with
    | none => rfl
    | some p =>
      refine Function.update_of_ne ?_ _ _
      rintro rfl
      exact other (made_name made)

section Table
variable {l : Loading} {rows : List Syscall}

def Purpose.Full (l : Loading) (rows : List Syscall) (s : Purpose) (name : String) : Prop :=
  (s.settled l rows).table name = s.table name

theorem settled_first (names : (rows.map Syscall.name).Nodup) (listed : row ∈ rows) (s : Purpose) :
    (s.settled l [row]).settled l rows = s.settled l rows := by
  simp only [Purpose.settled,Purpose.mk.injEq,true_and,and_true]
  funext name
  have alone : l.promised [row] name = if row.name = name then l.promise row else none := promised_cons l row [] name
  rw [alone]
  by_cases same : row.name = name
  · subst same
    rw [if_pos rfl,promised_own names listed,Option.or_assoc,Option.or_self]
  · rw [if_neg same,Option.or_none]

theorem full_first (names : (rows.map Syscall.name).Nodup) (listed : row ∈ rows) (s : Purpose) :
    (s.settled l [row]).Full l rows row.name := by
  have alone : l.promised [row] row.name = l.promise row := (promised_cons l row [] row.name).trans (if_pos rfl)
  simp only [Purpose.Full,Purpose.settled,alone,promised_own names listed,Option.or_assoc,Option.or_self]

theorem Purpose.Full.first (names : (rows.map Syscall.name).Nodup) (listed : row ∈ rows) (full : Purpose.Full l rows s name) :
    (s.settled l [row]).Full l rows name := by
  by_cases same : row.name = name
  · subst same
    exact full_first names listed s
  · have alone : l.promised [row] name = none := (promised_cons l row [] name).trans (if_neg same)
    simpa [Purpose.Full,Purpose.settled,alone] using full

theorem Purpose.Full.kept {s t : Purpose} (full : Purpose.Full l rows s name) (same : t.table name = s.table name) : t.Full l rows name := by
  simpa only [Purpose.Full,Purpose.settled,same] using full

structure Defers (l : Loading) (rows : List Syscall) (d : Deferred) (s : Purpose) : Prop where
  behind : ∃ history t, Serves history d.machine t ∧ t.initialised = true ∧ s = t.settled l rows ∧
    ∀ row ∈ rows, d.defined row = true → t.Full l rows row.name

theorem through_settled (listed : row ∈ rows) (literal : ∀ row ∈ rows, row.Literal) (full : Purpose.Full l rows s row.name)
    (args : List JSValueConst) :
    useNext l rows (s.settled l rows) (.through row args) = some ((s.call ((l.closure row).arguments args)).1.settled l rows,
      (s.call ((l.closure row).arguments args)).2) := by
  rw [useNext,if_pos listed,call_settled]
  intro name named
  have own : (argAt ((l.closure row).arguments args) 0).cstring = some row.name := name_literal (literal row listed) l
  rw [own] at named
  cases named
  exact full

theorem call_table (s : Purpose) (given : List JSValueConst) :
    (s.call given).1.table = s.table ∧ (s.call given).1.initialised = s.initialised := by
  unfold Purpose.call
  repeat' split
  all_goals exact ⟨rfl,rfl⟩

theorem Serves.called (serves : Serves history m s) (step : Step m ⟨.call given,log,r⟩ next) :
    ∃ t, s.call given = (t,Record.observed ⟨.call given,log,r⟩) ∧ Serves (history++[⟨.call given,log,r⟩]) next t ∧
      t.table = s.table ∧ t.initialised = s.initialised := by
  obtain ⟨t,answer,after⟩ := serves.step step
  have called : s.call given = (t,_) := Option.some.inj answer
  obtain ⟨table,kept⟩ := call_table s given
  rw [called] at table kept
  exact ⟨t,called,after,table,kept⟩

theorem Defers.after {flags : Syscall → Bool} (serves : Serves history m t) (initialised : t.initialised = true)
    (full : ∀ row ∈ rows, flags row = true → t.Full l rows row.name) : Defers l rows ⟨m,flags⟩ (t.settled l rows) :=
  ⟨history,t,serves,initialised,rfl,full⟩

theorem Defers.step (names : (rows.map Syscall.name).Nodup) (literal : ∀ row ∈ rows, row.Literal)
    (given : ∀ row ∈ rows, deferredGiven l o row = l.given row) (defers : Defers l rows d s)
    (step : Realises.Confined (DeferredStep l o rows) Used.use (fun u => u.outside rows = true) d used next) :
    ∃ t, useNext l rows s used.use = some (t,used.observed) ∧ Defers l rows next t := by
  obtain ⟨history,t,serves,initialised,rfl,full⟩ := defers.behind
  obtain ⟨step,outside⟩ := step
  cases step with
  | first listed new defines calls =>
    rename_i row log answer middle args opening r m
    rw [given row listed] at defines
    have between := serves.settles (literal row listed) initialised defines
    obtain ⟨u,called,after,table,kept⟩ := between.called calls
    have entry := through_settled listed literal (full_first (l := l) names listed t) args
    rw [settled_first names listed,called] at entry
    refine ⟨_,entry,.after after (kept.trans initialised) ?_⟩
    intro other member defined
    refine Purpose.Full.kept (s := t.settled l [row]) ?_ (congrFun table _)
    by_cases own : other = row
    · subst own
      exact full_first names listed t
    · rw [Function.update_of_ne own] at defined
      exact (full other member defined).first names listed
  | again listed old calls =>
    rename_i row args opening r m
    obtain ⟨u,called,after,table,kept⟩ := serves.called calls
    have entry := through_settled listed literal (full row listed old) args
    rw [called] at entry
    refine ⟨_,entry,.after after (kept.trans initialised) ?_⟩
    intro other member defined
    exact (full other member defined).kept (congrFun table _)
  | other moved =>
    rename_i label m
    have apart : label.action.outside rows = true := outside
    obtain ⟨u,answer,after⟩ := serves.step moved
    obtain ⟨kept,table⟩ := next_keeps answer
    refine ⟨u.settled l rows,?_,.after after (kept initialised) ?_⟩
    · rw [useNext,if_pos apart,next_settled t apart,answer]
      rfl
    · intro other member defined
      refine (full other member defined).kept (table _ ?_)
      intro declared
      exact outside_names apart (declared_target declared) other member rfl

theorem through_listed (answers : useNext l rows s (.through row args) = some (t,seen)) : row ∈ rows := by
  by_contra absent
  rw [useNext,if_neg absent] at answers
  cases answers

theorem other_outside {a : Action} (answers : useNext l rows s (.other a) = some (t,seen)) :
    a.outside rows = true ∧ s.next a = some (t,seen) := by
  by_cases outside : a.outside rows = true
  · rw [useNext,if_pos outside] at answers
    exact ⟨outside,answers⟩
  · rw [useNext,if_neg outside] at answers
    cases answers

theorem use_possible (reached : Reached history d.machine) (listed : row ∈ rows) (args : List JSValueConst) :
    ∃ used next later, DeferredStep l o rows d used next ∧ used.use = .through row args ∧ Reached later next.machine := by
  cases flag : d.defined row with
  | false =>
    obtain ⟨n,base,log,ran,_⟩ := js_define_gives l.ffi (deferredGiven l o row) d.machine.ctx
    have defines : Step d.machine _ _ := .define ran
    have between := Runs.snoc reached defines
    obtain ⟨opening,r,next,calls⟩ := call_possible (sound_reached between) ((l.closure row).arguments args)
    exact ⟨_,_,_,.first listed flag defines calls,rfl,.snoc between calls⟩
  | true =>
    obtain ⟨opening,r,next,calls⟩ := call_possible (sound_reached reached) ((l.closure row).arguments args)
    exact ⟨_,_,_,.again listed flag calls,rfl,.snoc reached calls⟩

theorem uses_possible (reached : Reached history d.machine) (ps : List (Syscall × List JSValueConst)) (listed : ∀ p ∈ ps, p.1 ∈ rows) :
    ∃ used next, Runs (DeferredStep l o rows) d used next ∧ used.map Used.use = ps.map (fun p => .through p.1 p.2) := by
  induction ps generalizing d history with
  | nil => exact ⟨[],d,.nil,rfl⟩
  | cons p rest ih =>
    obtain ⟨u,middle,later,step,use,onward⟩ := use_possible (l := l) (o := o) reached (listed p List.mem_cons_self) p.2
    obtain ⟨used,next,ran,uses⟩ := ih onward (fun q member => listed q (List.mem_cons_of_mem _ member))
    exact ⟨u :: used,next,Runs.append (.snoc .nil step) ran,by rw [List.map_cons,List.map_cons,use,uses]⟩

theorem Defers.takes (defers : Defers l rows d s)
    (answers : useNext l rows s i = some (t,seen)) :
    ∃ used next, Realises.Confined (DeferredStep l o rows) Used.use (fun u => u.outside rows = true) d used next ∧ used.use = i := by
  obtain ⟨history,u,serves,_,rfl,_⟩ := defers.behind
  cases i with
  | through row args =>
    obtain ⟨used,next,_,step,use,_⟩ := use_possible serves.reached (through_listed answers) args
    exact ⟨used,next,⟨step,by rw [use]; rfl⟩,use⟩
  | other a =>
    obtain ⟨outside,answers⟩ := other_outside answers
    rw [next_settled u outside] at answers
    obtain ⟨answer,taken,_⟩ := Option.map_eq_some_iff.mp answers
    obtain ⟨label,next,step,rfl⟩ := serves.takes taken
    exact ⟨_,_,⟨.other step,outside⟩,rfl⟩

theorem deferred_realises (names : (rows.map Syscall.name).Nodup) (literal : ∀ row ∈ rows, row.Literal)
    (given : ∀ row ∈ rows, deferredGiven l o row = l.given row) :
    Realises (Realises.Confined (DeferredStep l o rows) Used.use (fun u => u.outside rows = true)) Used.use Used.observed (useNext l rows)
      (fun _ => Defers l rows) :=
  ⟨fun defers step => defers.step names literal given step,Defers.takes⟩

theorem prompt_realises :
    Realises (Realises.Confined (PromptStep l rows) Used.use (fun u => u.outside rows = true)) Used.use Used.observed (useNext l rows)
      (fun _ m s => ∃ history, Serves history m s) := by
  refine ⟨?_,?_⟩
  · rintro used m s label next ⟨history,serves⟩ ⟨step,outside⟩
    cases step with
    | through listed calls =>
      obtain ⟨t,answer,after⟩ := serves.step calls
      exact ⟨t,(if_pos listed).trans answer,_,after⟩
    | other moved =>
      obtain ⟨t,answer,after⟩ := serves.step moved
      exact ⟨t,(if_pos outside).trans answer,_,after⟩
  · rintro used m s i t seen ⟨history,serves⟩ answers
    cases i with
    | through row args =>
      obtain ⟨opening,r,next,calls⟩ := call_possible (sound_reached serves.reached) ((l.closure row).arguments args)
      exact ⟨_,_,⟨.through (through_listed answers) calls,rfl⟩,rfl⟩
    | other a =>
      obtain ⟨outside,answers⟩ := other_outside answers
      obtain ⟨label,next,step,rfl⟩ := serves.takes answers
      exact ⟨_,_,⟨.other step,outside⟩,rfl⟩

end Table

section Once

def Used.records (u : Used) : List Record := u.defines++[u.last]

def Used.row (u : Used) : Option Syscall := match u.use with | .through row _ => some row | .other _ => none

theorem eraseDups_snoc [DecidableEq α] (as : List α) (a : α) : (as++[a]).eraseDups = if a ∈ as then as.eraseDups else as.eraseDups++[a] := by
  rw [List.eraseDups_append]
  by_cases present : a ∈ as <;> simp [List.removeAll,present,List.eraseDups_cons]

-- The flags are up for the closures used so far. Each of these has made one define, and
-- any other define of its name is the script's own.
structure Once (l : Loading) (o : List (String × JSValue)) (rows : List Syscall) (m : Machine) (used : List Used) (d : Deferred) : Prop where
  run : Runs Step m (used.flatMap Used.records) d.machine
  flags : ∀ row, d.defined row = true ↔ row ∈ used.filterMap Used.row
  defines : (used.flatMap Used.defines).map Record.action =
    (used.filterMap Used.row).eraseDups.map (fun row => .define l.ffi (deferredGiven l o row))
  counts : ∀ row ∈ rows, (used.flatMap Used.records).countP (fun r => r.action.declared = some row.name) =
    used.countP (fun u => u.use.declared = some row.name)+(if row ∈ used.filterMap Used.row then 1 else 0)

theorem Once.start : Once l o rows m [] ⟨m,fun _ => false⟩ := ⟨.nil,by simp,rfl,by simp⟩

theorem row_unique {rows : List Syscall} (names : (rows.map Syscall.name).Nodup) (listed : row ∈ rows) (other : row' ∈ rows)
    (same : row.name = row'.name) : row = row' :=
  List.inj_on_of_nodup_map names listed other same

-- One use adds at most one define to those the script makes itself, and only when its
-- closure has not been used before.
structure Adds (l : Loading) (o : List (String × JSValue)) (rows : List Syscall) (d : Deferred) (u : Used) (next : Deferred) : Prop where
  run : Runs Step d.machine u.records next.machine
  flags : ∀ row, next.defined row = true ↔ d.defined row = true ∨ u.row = some row
  defines : u.defines.map Record.action =
    (u.row.toList.filter (fun row => !d.defined row)).map (fun row => .define l.ffi (deferredGiven l o row))
  counts : ∀ row ∈ rows, u.records.countP (fun r => r.action.declared = some row.name) =
    (if u.use.declared = some row.name then 1 else 0)+(if u.row = some row ∧ d.defined row = false then 1 else 0)

theorem DeferredStep.adds (names : (rows.map Syscall.name).Nodup) (literal : ∀ row ∈ rows, row.Literal)
    (step : DeferredStep l o rows d u next) : Adds l o rows d u next := by
  cases step with
  | first listed new defining calls =>
    rename_i row log answer middle args opening r after
    refine ⟨.snoc (.snoc .nil defining) calls,?_,by simp [Used.row,new],?_⟩
    · intro other
      by_cases own : other = row
      · simp [Used.row,own]
      · simp [Used.row,own,Ne.symm own]
    · intro other member
      have name : (argAt (deferredGiven l o row) 0).cstring = some row.name := name_literal (literal row listed) l
      by_cases own : row = other
      · subst own
        simp [Used.records,Used.row,Use.declared,Action.declared,name,new]
      · have apart : row.name ≠ other.name := fun same => own (row_unique names listed member same)
        simp [Used.records,Used.row,Use.declared,Action.declared,name,own,apart]
  | again listed old calls =>
    rename_i row args opening r after
    refine ⟨.snoc .nil calls,?_,by simp [Used.row,old],?_⟩
    · intro other
      refine ⟨.inl,?_⟩
      rintro (used | ⟨⟨⟩⟩)
      · exact used
      · exact old
    · intro other member
      have used : row = other → d.defined other = true := by
        rintro rfl
        exact old
      simpa [Used.records,Used.row,Use.declared,Action.declared] using used
  | other moved =>
    rename_i label after
    refine ⟨.snoc .nil moved,by simp [Used.row],rfl,?_⟩
    intro other member
    by_cases own : label.action.declared = some other.name <;> simp [Used.records,Used.row,Use.declared,own]

theorem Once.unused (once : Once l o rows m used d) (absent : row ∉ used.filterMap Used.row) : d.defined row = false :=
  Bool.eq_false_iff.mpr (fun flag => absent ((once.flags row).mp flag))

theorem Once.step (once : Once l o rows m used d) (adds : Adds l o rows d u next) : Once l o rows m (used++[u]) next := by
  have through : (used++[u]).filterMap Used.row = used.filterMap Used.row++u.row.toList := by
    rw [List.filterMap_append]
    cases row : u.row <;> simp [row]
  refine ⟨?_,?_,?_,?_⟩
  · rw [List.flatMap_append,List.flatMap_singleton]
    exact once.run.append adds.run
  · intro row
    rw [through,List.mem_append,Option.mem_toList,adds.flags,once.flags]
  · rw [through,List.flatMap_append,List.flatMap_singleton,List.map_append,once.defines,adds.defines,← List.map_append]
    congr 1
    cases u.row with
    | none => simp
    | some row =>
      rw [Option.toList_some,eraseDups_snoc]
      by_cases present : row ∈ used.filterMap Used.row
      · simp [present,(once.flags row).mpr present]
      · simp [present,once.unused present]
  · intro row member
    rw [through,List.flatMap_append,List.flatMap_singleton,List.countP_append,List.countP_append,once.counts row member,adds.counts row member,
      List.countP_singleton]
    by_cases present : row ∈ used.filterMap Used.row
    · simp [present,(once.flags row).mpr present]
      omega
    · simp [present,once.unused present]
      omega

theorem deferred_run (names : (rows.map Syscall.name).Nodup) (literal : ∀ row ∈ rows, row.Literal)
    (ran : Runs (DeferredStep l o rows) ⟨m,fun _ => false⟩ used last) : Once l o rows m used last :=
  Runs.invariant .start (fun _ _ _ _ _ once step => once.step (step.adds names literal)) ran

end Once

def cterm_names : List String :=
  ["tcdrain","tcgetsid","tcsendbreak","tcsetattr","tcflow","tcsetpgrp","tcflush","tcgetattr","tcgetpgrp","cfgetospeed","cfsetospeed",
   "cfgetispeed","cfsetispeed"]

def termFunctions : List Syscall :=
  [⟨"tcgetattr","int",["int","buffer"]⟩,
   ⟨"tcsetattr","int",["int","int","buffer"]⟩,
   ⟨"tcflush","int",["int","int"]⟩,
   ⟨"tcdrain","int",["int"]⟩,
   ⟨"tcflow","int",["int","int"]⟩,
   ⟨"tcsendbreak","int",["int","int"]⟩,
   ⟨"tcgetsid","int",["int"]⟩,
   ⟨"tcgetpgrp","int",["int"]⟩,
   ⟨"tcsetpgrp","int",["int","int"]⟩,
   ⟨"cfgetospeed","int",["buffer"]⟩,
   ⟨"cfsetospeed","int",["buffer","int"]⟩,
   ⟨"cfgetispeed","int",["buffer"]⟩,
   ⟨"cfsetispeed","int",["buffer","int"]⟩]

theorem termFunctions_literal : ∀ row ∈ termFunctions, row.Literal := by decide
theorem termFunctions_names : (termFunctions.map Syscall.name).Nodup := by decide
theorem termFunctions_known : ∀ row ∈ termFunctions, row.name ∈ cterm_names := by decide

def tcdrain : Syscall := ⟨"tcdrain","int",["int"]⟩

-- The functions of term.js, each defined when it is first used, answer a script as if
-- foreign of socket.js had defined all of them at once, where the script neither defines
-- nor calls their names past the closures.
theorem deferred_prompt (reached : Reached history m) (initialised : history.any Record.initialises = true)
    (addresses : Gives (cterm l cterm_names) m.ctx (some o) s log)
    (loads : Gives (foreignAll l termFunctions) m.ctx (some fs) t log') (uses : List Use)
    (outside : ∀ u ∈ uses, u.outside termFunctions = true) (seen : List Observed) :
    Realises.Traces (DeferredStep l o termFunctions) Used.use Used.observed ⟨⟨s,m.stack⟩,fun _ => false⟩ uses seen ↔
      Realises.Traces (PromptStep l termFunctions) Used.use Used.observed ⟨t,m.stack⟩ uses seen := by
  obtain ⟨purpose,_,serves⟩ := module_realises.run serves_start reached
  rw [List.nil_append] at serves
  have ready : purpose.initialised = true := serves.initialised.trans initialised
  obtain ⟨table,_,opening,after⟩ := serves.cterm addresses
  obtain ⟨_,loading,settled⟩ := serves.foreignAll termFunctions_literal termFunctions_names ready loads
  have given : ∀ row ∈ termFunctions, deferredGiven l o row = l.given row := by
    intro row listed
    rw [table]
    exact deferredGiven_given (termFunctions_known row listed) l
  have deferred := deferred_realises termFunctions_names termFunctions_literal given
  have start : Defers l termFunctions ⟨⟨s,m.stack⟩,fun _ => false⟩ (purpose.settled l termFunctions) := by
    refine .after after ready ?_
    intro row listed flag
    cases flag
  have alike := deferred.alike prompt_realises (h := []) (k := []) start ⟨_,settled⟩ uses seen
  exact (Realises.Traces.confined outside).trans (alike.trans (Realises.Traces.confined outside).symm)

theorem deferred_prompt_plain : ∃ o s t, ∀ native seen,
    Realises.Traces (DeferredStep plainLoading o termFunctions) Used.use Used.observed ⟨⟨s,[]⟩,fun _ => false⟩
      [.through tcdrain [intArgument 1],.other (.returned native),.other .caught,.through tcdrain [intArgument 2]] seen ↔
    Realises.Traces (PromptStep plainLoading termFunctions) Used.use Used.observed ⟨t,[]⟩
      [.through tcdrain [intArgument 1],.other (.returned native),.other .caught,.through tcdrain [intArgument 2]] seen := by
  have found : ∀ name ∈ cterm_names, ¬ (plainLoading.address name = .null ∨ plainLoading.address name = .exception) := by decide +kernel
  obtain ⟨s,_,addresses⟩ := cterm_gives plainLoading found freshMachine.ctx
  obtain ⟨t,_,loads⟩ := foreignAll_gives termFunctions_literal plainLoading freshMachine.ctx
  exact ⟨_,s,t,fun native => deferred_prompt fresh_reached rfl addresses loads _ (by simp [Use.outside,Action.outside,Action.target])⟩

-- In every run, whatever else the script does, the closures of term.js define each function
-- that is used once, in the order of the first uses: a name is defined by the script itself
-- as often as it likes and by the closures once more, if they are used at all.
theorem deferred_once (ran : Runs (DeferredStep l o termFunctions) ⟨m,fun _ => false⟩ used last) :
    Runs Step m (used.flatMap Used.records) last.machine ∧
    (used.flatMap Used.defines).map Record.action =
      (used.filterMap Used.row).eraseDups.map (fun row => .define l.ffi (deferredGiven l o row)) ∧
    ∀ row ∈ termFunctions, (used.flatMap Used.records).countP (fun r => r.action.declared = some row.name) =
      used.countP (fun u => u.use.declared = some row.name)+(if row ∈ used.filterMap Used.row then 1 else 0) := by
  have once := deferred_run termFunctions_names termFunctions_literal ran
  exact ⟨once.run,once.defines,once.counts⟩

theorem deferred_once_tcdrain : ∃ (used : List Used) (last : Deferred),
    used.map Used.use = [.other (.define plainLibffi (plainLoading.given tcdrain)),.through tcdrain [intArgument 1],
      .through tcdrain [intArgument 2]] ∧
    Runs Step freshMachine (used.flatMap Used.records) last.machine ∧
    (used.flatMap Used.defines).map Record.action = [.define plainLibffi (deferredGiven plainLoading [] tcdrain)] ∧
    (used.flatMap Used.records).countP (fun r => r.action.declared = some "tcdrain") = 2 := by
  obtain ⟨_,_,_,early,_⟩ := js_define_gives plainLibffi (plainLoading.given tcdrain) freshMachine.ctx
  have own : Step freshMachine _ _ := .define early
  have prior := Runs.snoc fresh_reached own
  obtain ⟨_,_,_,late,_⟩ := js_define_gives plainLibffi (deferredGiven plainLoading [] tcdrain) (Machine.mk _ freshMachine.stack).ctx
  have defines : Step _ _ _ := .define late
  have defined := Runs.snoc prior defines
  obtain ⟨_,_,m,one⟩ := call_possible (sound_reached defined) ((plainLoading.closure tcdrain).arguments [intArgument 1])
  obtain ⟨_,_,_,two⟩ := call_possible (sound_reached (.snoc defined one)) ((plainLoading.closure tcdrain).arguments [intArgument 2])
  have listed : tcdrain ∈ termFunctions := by decide
  have third : DeferredStep plainLoading [] termFunctions ⟨freshMachine,fun _ => false⟩ _ _ := .other own
  have first : DeferredStep plainLoading [] termFunctions ⟨_,fun _ => false⟩ _ _ := .first listed rfl defines one
  have second : DeferredStep plainLoading [] termFunctions ⟨m,Function.update (fun _ => false) tcdrain true⟩ _ _ :=
    .again listed (by simp) two
  obtain ⟨run,once,counts⟩ := deferred_once (.snoc (.snoc (.snoc .nil third) first) second)
  exact ⟨_,_,rfl,run,once,counts tcdrain listed⟩

end QjsFfi
