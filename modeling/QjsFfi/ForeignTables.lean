import QjsFfi.ModulePurpose
import QjsFfi.Syscalls

namespace QjsFfi
open BinaryFloat Activation Histories Automata

def Loading.promise (l : Loading) (row : Syscall) : Option Prototype := spelled l.ffi (l.given row)

def Loading.promised (l : Loading) (rows : List Syscall) (name : String) : Option Prototype :=
  (rows.find? (fun row => row.name = name)).bind l.promise

def Purpose.settled (l : Loading) (rows : List Syscall) (s : Purpose) : Purpose :=
  {s with table := fun name => (s.table name).or (l.promised rows name)}

def foreignAll (l : Loading) : List Syscall → C (Option (List Closure))
  | [] => pure (some [])
  | row :: rest => do
    let f ← foreign l row
    match f with
    | none => pure none
    | some f => do
      let more ← foreignAll l rest
      pure (more.map (fun fs => f :: fs))

theorem fp_number {row : Syscall} (literal : row.Literal) (l : Loading) : (l.fp row).argument.toInt64.isSome = true := by
  rw [fp_symbol literal]
  split
  · rfl
  · exact JS_NewInt64_toInt64 _

theorem given_header {row : Syscall} (literal : row.Literal) (l : Loading) :
    ∃ h, defineHeader (l.given row) = some h ∧ h.name = row.name := by
  obtain ⟨n,number⟩ := Option.isSome_iff_exists.mp (fp_number literal l)
  refine ⟨⟨row.name,n,"default",cText row.ret⟩,?_,rfl⟩
  have name := given_name literal l
  have fp : (argAt (l.given row) 1).toInt64 = some n := number
  have ret : (argAt (l.given row) 3).cstring = some (cText row.ret) := rfl
  have abi : abiName (l.given row) = some "default" := rfl
  simp only [defineHeader,name,fp,abi,ret,Option.bind_eq_bind,Option.bind_some]

theorem given_calm {row : Syscall} (literal : row.Literal) (l : Loading) : defineRaises (l.given row) = false := by
  obtain ⟨h,header,_⟩ := given_header literal l
  have types : typeArguments (l.given row) = (row.args.map l.literal).take MAX_PARAMETERS := rfl
  simp only [defineRaises,header,types,Option.isNone_some,Bool.false_or,raises,List.any_eq_false]
  intro v member
  obtain ⟨text,_,rfl⟩ := List.mem_map.mp (List.mem_of_mem_take member)
  simp [literal_cstring]

theorem promise_name {row : Syscall} (literal : row.Literal) {l : Loading} (made : l.promise row = some p) : p.name = row.name := by
  obtain ⟨h,header,name,_⟩ := spelled_parts made
  obtain ⟨own,again,same⟩ := given_header literal l
  rw [header] at again
  cases again
  rw [name,same]

theorem promised_cons (l : Loading) (row : Syscall) (rest : List Syscall) (name : String) :
    l.promised (row :: rest) name = if row.name = name then l.promise row else l.promised rest name := by
  by_cases same : row.name = name <;> simp [Loading.promised,same]

theorem promised_none {rows : List Syscall} (absent : ∀ row ∈ rows, row.name ≠ name) (l : Loading) : l.promised rows name = none := by
  have missing : rows.find? (fun row => row.name = name) = none := by simpa using absent
  rw [Loading.promised,missing]
  rfl

theorem promised_own {rows : List Syscall} (names : (rows.map Syscall.name).Nodup) (listed : row ∈ rows) (l : Loading) :
    l.promised rows row.name = l.promise row := by
  induction rows with
  | nil => cases listed
  | cons other rest ih =>
    rw [List.map_cons,List.nodup_cons] at names
    rw [promised_cons]
    rcases List.mem_cons.mp listed with rfl | later
    · rw [if_pos rfl]
    · have different : other.name ≠ row.name := fun same => names.1 (same ▸ List.mem_map_of_mem later)
      rw [if_neg different]
      exact ih names.2 later

theorem settled_cons {rows : List Syscall} (names : ((row :: rows).map Syscall.name).Nodup) (l : Loading) (s : Purpose) :
    (s.settled l [row]).settled l rows = s.settled l (row :: rows) := by
  rw [List.map_cons,List.nodup_cons] at names
  simp only [Purpose.settled,Purpose.mk.injEq,true_and,and_true]
  funext name
  rw [promised_cons,promised_cons]
  by_cases same : row.name = name
  · subst same
    have alone : l.promised rows row.name = none := by
      refine promised_none ?_ l
      intro other member equal
      exact names.1 (equal ▸ List.mem_map_of_mem member)
    simp [alone]
  · simp [same,promised_none]

theorem row_settles {row : Syscall} (literal : row.Literal) (l : Loading) (s : Purpose) (initialised : s.initialised = true) :
    (s.define l.ffi (l.given row)).1 = s.settled l [row] := by
  have calm := given_calm literal l
  have made : s.made l.ffi (l.given row) = (l.promise row).filter (fun p => (s.table p.name).isNone) := by
    rw [Purpose.made,if_pos initialised]
    rfl
  have table : ∀ name, ((s.define l.ffi (l.given row)).1.table name) = (s.table name).or (l.promised [row] name) := by
    intro name
    have alone : l.promised [row] name = if row.name = name then l.promise row else none := promised_cons l row [] name
    rw [alone,Purpose.define,made]
    cases promise : l.promise row with
    | none =>
      rw [ite_self,Option.or_none]
      rfl
    | some p =>
      have own := promise_name literal promise
      cases used : s.table row.name with
      | some q =>
        rw [Option.filter_some_neg (by simp [own,used])]
        by_cases same : row.name = name
        · subst same
          rw [used]
          exact used
        · rw [if_neg same,Option.or_none]
          rfl
      | none =>
        rw [Option.filter_some_pos (by simp [own,used])]
        by_cases same : row.name = name
        · subst same
          rw [used,if_pos rfl]
          exact own ▸ Function.update_self _ _ _
        · rw [if_neg same,Option.or_none]
          exact Function.update_of_ne (own ▸ Ne.symm same) _ _
  have rest : (s.define l.ffi (l.given row)).1 = {s with table := (s.define l.ffi (l.given row)).1.table} := by
    simp [Purpose.define,Purpose.defined,calm]
  rw [rest,Purpose.settled]
  congr 1
  exact funext table

theorem Serves.settles {row : Syscall} (literal : row.Literal) (serves : Serves history m s) (initialised : s.initialised = true)
    (step : Step m ⟨.define l.ffi (l.given row),log,r⟩ next) :
    Serves (history++[⟨.define l.ffi (l.given row),log,r⟩]) next (s.settled l [row]) := by
  obtain ⟨t,answer,after⟩ := serves.step step
  have same : t = (s.define l.ffi (l.given row)).1 := (congrArg Prod.fst (Option.some.inj answer)).symm
  rwa [same,row_settles literal l s initialised] at after

theorem Serves.asked (serves : Serves history m s) (step : Step m ⟨.exported host .dlsym given,log,some r⟩ next)
    (found : r ≠ .exception) : Serves (history++[⟨.exported host .dlsym given,log,some r⟩]) next s := by
  obtain ⟨t,answer,after⟩ := serves.step step
  have value : r = dlsymValue host given := by
    have seen := congrArg Prod.snd (Option.some.inj answer)
    exact (Option.some.inj (Observed.mk.inj seen).1).symm
  have same : {s with pending := s.pending || Export.dlsym.raises host given} = t := congrArg Prod.fst (Option.some.inj answer)
  have calm : Export.dlsym.raises host given = false := decide_eq_false (value ▸ found)
  rw [← same,calm,Bool.or_false] at after
  exact after

theorem Serves.foreign {row : Syscall} (literal : row.Literal) (serves : Serves history m s) (initialised : s.initialised = true)
    (ran : Gives (foreign l row) m.ctx (some f) t log) :
    f = l.closure row ∧ ∃ loading, Serves (history++loading) ⟨t,m.stack⟩ (s.settled l [row]) := by
  obtain ⟨closure,answered,closed,r,middle,asked,defined⟩ := foreign_runs literal ran
  have between := serves.asked asked (fp_present literal l)
  have after := between.settles literal initialised defined
  rw [List.append_assoc] at after
  exact ⟨closure,_,after⟩

theorem Serves.foreignAll {rows : List Syscall} (literal : ∀ row ∈ rows, row.Literal) (names : (rows.map Syscall.name).Nodup)
    (serves : Serves history m s) (initialised : s.initialised = true)
    (ran : Gives (foreignAll l rows) m.ctx (some fs) t log) :
    fs = rows.map l.closure ∧ ∃ loading, Serves (history++loading) ⟨t,m.stack⟩ (s.settled l rows) := by
  induction rows generalizing history m s fs log with
  | nil =>
    cases ran
    have same : s.settled l [] = s := by simp [Purpose.settled,Loading.promised]
    rw [same]
    exact ⟨rfl,[],by rwa [List.append_nil]⟩
  | cons row rest ih =>
    obtain ⟨f,u,early,late,first,onward,_⟩ := ran.unbind
    cases f with
    | none => cases onward
    | some f =>
      obtain ⟨more,v,later,last,loads,finish,_⟩ := onward.unbind
      cases more with
      | none => cases finish
      | some more =>
        cases finish
        obtain ⟨closure,opening,between⟩ := serves.foreign (literal row List.mem_cons_self) initialised first
        have distinct := (List.nodup_cons.mp names).2
        obtain ⟨closures,closing,after⟩ := ih (fun other member => literal other (List.mem_cons_of_mem _ member)) distinct between
          initialised loads
        rw [settled_cons names,List.append_assoc] at after
        exact ⟨by rw [closure,closures,List.map_cons],_,after⟩

theorem promised_perm {rows rows' : List Syscall} (names : (rows.map Syscall.name).Nodup) (perm : rows.Perm rows') (l : Loading)
    (name : String) : l.promised rows name = l.promised rows' name := by
  have names' : (rows'.map Syscall.name).Nodup := (perm.map Syscall.name).nodup_iff.mp names
  by_cases own : ∃ row ∈ rows, row.name = name
  · obtain ⟨row,listed,rfl⟩ := own
    rw [promised_own names listed,promised_own names' (perm.mem_iff.mp listed)]
  · have absent : ∀ row ∈ rows, row.name ≠ name := fun row listed same => own ⟨row,listed,same⟩
    rw [promised_none absent,promised_none (fun row listed => absent row (perm.mem_iff.mpr listed))]

theorem foreign_gives {row : Syscall} (literal : row.Literal) (l : Loading) (s : Ctx) :
    ∃ t log, Gives (foreign l row) s (some (l.closure row)) t log := by
  obtain ⟨n,asked,asks,_⟩ := js_dlsym_gives l.host [l.RTLD_DEFAULT,l.literal row.name] s
  obtain ⟨k,base,closed,defines,_⟩ := js_define_gives l.ffi (l.given row)
    (s.bump n (decide (dlsymValue l.host [l.RTLD_DEFAULT,l.literal row.name] = .exception)))
  apply Exists.intro
  apply Exists.intro
  apply asks.bind
  have present : ¬ dlsymValue l.host [l.RTLD_DEFAULT,l.literal row.name] = .exception := fp_present literal l
  rw [if_neg present]
  exact defines.bind Gives.pure

theorem foreignAll_gives {rows : List Syscall} (literal : ∀ row ∈ rows, row.Literal) (l : Loading) (s : Ctx) :
    ∃ t log, Gives (foreignAll l rows) s (some (rows.map l.closure)) t log := by
  induction rows generalizing s with
  | nil => exact ⟨_,_,Gives.pure⟩
  | cons row rest ih =>
    obtain ⟨u,_,first⟩ := foreign_gives (literal row List.mem_cons_self) l s
    obtain ⟨t,_,later⟩ := ih (fun other member => literal other (List.mem_cons_of_mem _ member)) u
    exact ⟨_,_,first.bind (later.bind Gives.pure)⟩

-- In whatever order a table is loaded, a script sees the same.
theorem load_order {rows rows' : List Syscall} (literal : ∀ row ∈ rows, row.Literal) (names : (rows.map Syscall.name).Nodup)
    (perm : rows.Perm rows') (reached : Reached history m) (initialised : history.any Record.initialises = true)
    (one : Gives (foreignAll l rows) m.ctx (some fs) t log) (two : Gives (foreignAll l rows') m.ctx (some fs') t' log')
    (actions : List Action) (seen : List Observed) :
    Realises.Traces Step Record.action Record.observed ⟨t,m.stack⟩ actions seen ↔
      Realises.Traces Step Record.action Record.observed ⟨t',m.stack⟩ actions seen := by
  obtain ⟨purpose,_,serves⟩ := module_realises.run serves_start reached
  rw [List.nil_append] at serves
  have ready : purpose.initialised = true := serves.initialised.trans initialised
  obtain ⟨_,_,settled⟩ := serves.foreignAll literal names ready one
  obtain ⟨_,_,settled'⟩ := serves.foreignAll (fun row listed => literal row (perm.mem_iff.mpr listed))
    ((perm.map Syscall.name).nodup_iff.mp names) ready two
  have same : purpose.settled l rows = purpose.settled l rows' := by
    simp only [Purpose.settled,promised_perm names perm]
  rw [← same] at settled'
  exact module_realises.alike module_realises settled settled' actions seen

theorem load_order_swapped : ∃ t t',
    (∃ log, Gives (foreignAll plainLoading [⟨"abs","int",["int"]⟩,⟨"getenv","char *",["char *"]⟩]) freshMachine.ctx
      (some ([⟨"abs","int",["int"]⟩,⟨"getenv","char *",["char *"]⟩].map plainLoading.closure)) t log) ∧
    (∃ log, Gives (foreignAll plainLoading [⟨"getenv","char *",["char *"]⟩,⟨"abs","int",["int"]⟩]) freshMachine.ctx
      (some ([⟨"getenv","char *",["char *"]⟩,⟨"abs","int",["int"]⟩].map plainLoading.closure)) t' log) ∧
    ∀ actions seen, Realises.Traces Step Record.action Record.observed ⟨t,[]⟩ actions seen ↔
      Realises.Traces Step Record.action Record.observed ⟨t',[]⟩ actions seen := by
  have literal : ∀ row ∈ ([⟨"abs","int",["int"]⟩,⟨"getenv","char *",["char *"]⟩] : List Syscall), row.Literal := by decide
  have literal' : ∀ row ∈ ([⟨"getenv","char *",["char *"]⟩,⟨"abs","int",["int"]⟩] : List Syscall), row.Literal := by decide
  obtain ⟨t,log,one⟩ := foreignAll_gives literal plainLoading freshMachine.ctx
  obtain ⟨t',log',two⟩ := foreignAll_gives literal' plainLoading freshMachine.ctx
  exact ⟨t,t',⟨log,one⟩,⟨log',two⟩,load_order literal (by decide) (.swap _ _ []) fresh_reached rfl one two⟩

theorem foreign_promised {row : Syscall} (literal : row.Literal) (reached : Reached history m)
    (initialised : history.any Record.initialises = true) (free : firstDefine history row.name = none)
    (promise : (l.promise row).isSome = true) (ran : Gives (foreign l row) m.ctx (some f) t log) :
    f = l.closure row ∧ ∃ loading, Reached (history++loading) ⟨t,m.stack⟩ ∧ Loaded (history++loading) l row := by
  obtain ⟨purpose,_,serves⟩ := module_realises.run serves_start reached
  rw [List.nil_append] at serves
  obtain ⟨_,_,settled⟩ := serves.foreign literal (serves.initialised.trans initialised) ran
  obtain ⟨closure,loading,after,_,own⟩ := foreign_history literal reached ran
  refine ⟨closure,loading,after,(own free).resolve_left ?_⟩
  intro undefined
  have entry := settled.function row.name
  have absent : t.function row.name = none := (sound_reached after).unknown row.name undefined
  have alone : l.promised [row] row.name = l.promise row := (promised_cons l row [] row.name).trans (if_pos rfl)
  rw [absent,Purpose.settled,Option.isSome_or,alone,promise,Bool.or_true] at entry
  cases entry

theorem foreignAll_loads {rows : List Syscall} (literal : ∀ row ∈ rows, row.Literal) (names : (rows.map Syscall.name).Nodup)
    (reached : Reached history m) (free : ∀ row ∈ rows, firstDefine history row.name = none)
    (ran : Gives (foreignAll l rows) m.ctx (some fs) t log) :
    fs = rows.map l.closure ∧ ∃ loading, Reached (history++loading) ⟨t,m.stack⟩ ∧
      (∀ name, name ∉ rows.map Syscall.name → firstDefine (history++loading) name = firstDefine history name) ∧
      ∀ row ∈ rows, firstDefine (history++loading) row.name = none ∨ Loaded (history++loading) l row := by
  induction rows generalizing history m fs log with
  | nil =>
    cases ran
    refine ⟨rfl,[],?_,?_,by simp⟩
    · rwa [List.append_nil]
    · intro name _
      rw [List.append_nil]
  | cons row rest ih =>
    obtain ⟨f,u,early,late,first,onward,_⟩ := ran.unbind
    cases f with
    | none => cases onward
    | some f =>
      obtain ⟨more,v,later,last,loads,finish,_⟩ := onward.unbind
      cases more with
      | none => cases finish
      | some more =>
        cases finish
        obtain ⟨closure,opening,between,others,own⟩ := foreign_history (literal row List.mem_cons_self) reached first
        obtain ⟨apart,distinct⟩ := List.nodup_cons.mp names
        have unused : ∀ other ∈ rest, firstDefine (history++opening) other.name = none := by
          intro other member
          rw [others _ (fun same => apart (same ▸ List.mem_map_of_mem member))]
          exact free other (List.mem_cons_of_mem _ member)
        obtain ⟨closures,closing,after,untouched,loaded⟩ := ih (fun other member => literal other (List.mem_cons_of_mem _ member))
          distinct between unused loads
        rw [List.append_assoc] at after untouched loaded
        refine ⟨by rw [closure,closures,List.map_cons],_,after,?_,?_⟩
        · intro name absent
          simp only [List.map_cons,List.mem_cons,not_or] at absent
          rw [untouched name absent.2,others name absent.1]
        · intro other member
          rcases List.mem_cons.mp member with rfl | later
          · rcases own (free other List.mem_cons_self) with undefined | loaded
            · exact .inl ((untouched _ apart).trans undefined)
            · rw [← List.append_assoc]
              exact .inr (loaded.later closing)
          · exact loaded other later

end QjsFfi
