import QjsFfi.InvocationExactness

namespace QjsFfi
open BinaryFloat Activation Histories

def Action.arguments : Action → Option (List JSValueConst)
  | .define _ given | .call given | .exported _ _ given => some given
  | .init | .returned _ | .caught => none

-- The function has returned. What runs inside a native function may use the module
-- too and leaves the exception state as it found it.
inductive Answers (m : Machine) : Action → JSValue → Machine → Prop where
  | define (step : Step m ⟨.define ffi given,log,some r⟩ next) : Answers m (.define ffi given) r next
  | exported (step : Step m ⟨.exported host e given,log,some r⟩ next) : Answers m (.exported host e given) r next
  | refused (step : Step m ⟨.call given,log,some r⟩ next) : Answers m (.call given) r next
  | called (step : Step m ⟨.call given,opening,none⟩ entered) (nested : Runs Step entered inside suspended)
    (level : suspended.stack = entered.stack) (calm : suspended.ctx.pending = entered.ctx.pending)
    (back : Step suspended ⟨.returned native,closing,some r⟩ next) : Answers m (.call given) r next

-- The test of js_topointer.
def OffsetAllowed (size : ℕ) (off : Word) : Prop :=
  let off := if off.toInt < 0 then off+BitVec.ofNat 64 size else off
  off.toNat ≤ size ∧ 0 ≤ off.toInt

-- When the value a function returns agrees with the exception it leaves pending.
def Keeps (s : Ctx) : Action → Prop
  | .define _ given => (argAt given 0).cstring.isSome ∧ (argAt given 1).toInt64.isSome ∧
      (JS_IsNull (argAt given 2) ∨ (argAt given 2).cstring.isSome) ∧ (argAt given 3).cstring.isSome ∧
      ∀ v ∈ typeArguments given, v.cstring.isSome
  | .call given => ∀ name, (argAt given 0).cstring = some name → (∀ v ∈ callArguments given, Convertible v) →
      (s.function name).isSome
  | .exported _ .toArrayBuffer given => ∀ p n, (argAt given 0).toInt64 = some p → (argAt given 1).toInt64 = some n →
      0 ≤ n.toInt
  | .exported _ .toPointer given =>
    match (argAt given 0).buffer with
    | some (_,size) => given.length > 1 → ∀ off, (argAt given 1).toInt64 = some off → OffsetAllowed size off
    | none => given.length > 1 ∧ ∀ off, (argAt given 1).toInt64 = some off → off ≠ 0
  | _ => True

theorem define_keeps (s : Ctx) (ffi : Libffi) (given : List JSValueConst) :
    defineRaises given = false ↔ Keeps s (.define ffi given) := by
  have texts : raises (typeArguments given) = false ↔ ∀ v ∈ typeArguments given, v.cstring.isSome := by
    simp [raises,Option.isSome_iff_ne_none]
  have header : (defineHeader given).isNone = false ↔ (argAt given 0).cstring.isSome ∧ (argAt given 1).toInt64.isSome ∧
      (JS_IsNull (argAt given 2) ∨ (argAt given 2).cstring.isSome) ∧ (argAt given 3).cstring.isSome := by
    unfold defineHeader abiName
    cases (argAt given 0).cstring <;> cases (argAt given 1).toInt64 <;> cases (argAt given 3).cstring <;>
      by_cases null : JS_IsNull (argAt given 2) = true <;> cases (argAt given 2).cstring <;> simp [null]
  rw [defineRaises,Bool.or_eq_false_iff,texts,header]
  simp only [Keeps,and_assoc]

theorem toarraybuffer_keeps (s : Ctx) (host : Host) (given : List JSValueConst) :
    (toarraybufferValue host given = .exception ↔ toarraybufferRaises host given = true) ↔
      Keeps s (.exported host .toArrayBuffer given) := by
  simp only [toarraybufferValue,toarraybufferRaises,Keeps]
  cases (argAt given 0).toInt64 with
  | none => simp
  | some p =>
    cases (argAt given 1).toInt64 with
    | none => simp
    | some n =>
      by_cases negative : n.toInt < 0
      · simp [negative]
      · have sized : 0 ≤ n.toInt := by omega
        simp [negative,sized]

theorem pointerAt_allowed (ptr : Word) (size : ℕ) (off : Word) : pointerAt ptr size off = .exception ↔ ¬ OffsetAllowed size off := by
  unfold pointerAt OffsetAllowed
  generalize (if off.toInt < 0 then off+BitVec.ofNat 64 size else off) = place
  by_cases outside : place.toNat > size ∨ place.toInt < 0
  · simp only [if_pos outside,true_iff]
    omega
  · simp only [if_neg outside,reduceCtorEq,false_iff,not_not]
    omega

theorem nothing_allowed (off : Word) : OffsetAllowed 0 off ↔ off = 0 := by
  constructor
  · intro ⟨below,_⟩
    apply BitVec.eq_of_toNat_eq
    simpa using below
  · rintro rfl
    simp [OffsetAllowed]

theorem topointer_keeps (s : Ctx) (host : Host) (given : List JSValueConst) :
    (topointerValue given = .exception ↔ topointerRaises given = true) ↔ Keeps s (.exported host .toPointer given) := by
  simp only [topointerValue,topointerRaises,Keeps]
  cases (argAt given 0).buffer with
  | none =>
    by_cases more : given.length > 1
    · cases (argAt given 1).toInt64 with
      | none => simp [more]
      | some off => simp [more,pointerAt_allowed,nothing_allowed]
    · simp [more]
  | some found =>
    obtain ⟨data,size⟩ := found
    by_cases more : given.length > 1
    · cases (argAt given 1).toInt64 with
      | none => simp [more]
      | some off => simp [more,pointerAt_allowed]
    · simp [more]

theorem exported_keeps (s : Ctx) (host : Host) (e : Export) (given : List JSValueConst) :
    (e.value host given = .exception ↔ e.raises host given = true) ↔ Keeps s (.exported host e given) := by
  cases e with
  | debug | errno | dlopen | dlerror | dlclose | dlsym | toString => simp [Export.value,Export.raises,Keeps]
  | JSContext => simp [Export.value,Export.raises,Keeps,JS_NewInt64_present]
  | toArrayBuffer => exact toarraybuffer_keeps s host given
  | toPointer => exact topointer_keeps s host given

theorem unconvertible_raises {v : JSValueConst} (engine : ∀ n, v.buffer ≠ some (0,n)) (failed : carrier v = none) :
    carrierRaises v = true := by
  unfold carrier at failed
  unfold JSValueConst.buffer at engine
  unfold carrierRaises
  cases value : v.value with
  | arrayBuffer buffer =>
    obtain ⟨data,bytes⟩ := buffer
    cases data with
    | none => rfl
    | some data =>
      simp only [value] at engine failed
      split at failed
      · rename_i absent
        subst absent
        exact absurd rfl (engine bytes.length)
      · cases failed
  | _ => rfl

theorem scan_raised (id : ℕ) (vs : List JSValueConst) (engine : ∀ v ∈ vs, ∀ n, v.buffer ≠ some (0,n))
    (failed : (scan id vs).converted = false) : (scan id vs).raised = true := by
  induction vs generalizing id with
  | nil => cases failed
  | cons v rest ih =>
    simp only [scan] at failed ⊢
    cases made : carrier v with
    | none => exact unconvertible_raises (engine v List.mem_cons_self) made
    | some c =>
      rw [made] at failed
      exact ih _ (fun u member => engine u (List.mem_cons_of_mem _ member)) failed

theorem refused_keeps (clean : s.pending = false) (engine : ∀ v ∈ given, ∀ n, v.buffer ≠ some (0,n))
    (outcome : CallOutcome s given (.inl r) t log) : (r = .exception ↔ t.pending = true) ↔ Keeps s (.call given) := by
  simp only [Keeps]
  cases outcome with
  | unnamed failed => simp [failed]
  | unconverted name named failed =>
    have members : ∀ v ∈ callArguments given, ∀ n, v.buffer ≠ some (0,n) :=
      fun v member => engine v (List.mem_of_mem_drop (List.mem_of_mem_take member))
    have raised : (callScan s given).raised = true := scan_raised _ _ members failed
    have lost : ¬ ∀ v ∈ callArguments given, Convertible v := by
      rw [← converted_iff s given,failed]
      simp
    simp only [Ctx.bump_pending,raised,Bool.or_true]
    exact ⟨fun _ _ _ all => absurd all lost,fun _ => by simp⟩
  | unknown name named converted missing =>
    have text : (argAt given 0).cstring = some name.text := by
      rw [← asCString_text _ s.fresh,named]
      rfl
    have all := (converted_iff s given).mp converted
    simp only [Ctx.bump_pending,clean,Bool.or_false,Bool.false_eq_true,iff_false,not_true_eq_false,false_iff]
    intro kept
    have found := kept name.text text all
    rw [Ctx.function,missing] at found
    cases found

theorem called_keeps (reached : Reached history m) (clean : m.ctx.pending = false)
    (step : Step m ⟨.call given,opening,none⟩ entered) (nested : Runs Step entered inside suspended)
    (calm : suspended.ctx.pending = entered.ctx.pending)
    (back : Step suspended ⟨.returned native,closing,some r⟩ next) :
    r ≠ .exception ∧ next.ctx.pending = false ∧ Keeps m.ctx (.call given) := by
  have later := sound_reached (Runs.append (.snoc reached step) nested)
  obtain ⟨_,_,rfl⟩ := return_value later back
  refine ⟨JS_NewFloat64_number _,?_,?_⟩
  · cases back with
    | returned innermost ran =>
      rename_i frame _ _ _
      obtain ⟨held,addr,p,waiting⟩ := later.frames frame (innermost ▸ List.mem_cons_self)
      obtain ⟨_,rfl,_⟩ := ran.unique (finish_gives later.addresses waiting native)
      cases step with
      | entered ran =>
        cases call_parts (sound_reached reached).registered ran with
        | dispatched => simpa [clean] using calm
  · cases step with
    | entered ran =>
      obtain ⟨_,_,⟨⟨name,text,found⟩,_⟩,_⟩ := (call_parts (sound_reached reached).registered ran).invokes
      intro other same _
      rw [text,Option.some.injEq] at same
      subst same
      exact Option.isSome_of_eq_some found

theorem answers_possible (reached : Reached history m) (asked : a.arguments.isSome) : ∃ r next, Answers m a r next := by
  cases a with
  | define ffi given =>
    obtain ⟨_,_,_,ran,_⟩ := js_define_gives ffi given m.ctx
    exact ⟨_,_,.define (.define ran)⟩
  | exported host e given =>
    obtain ⟨_,_,_,ran,_⟩ := e.run_gives host given m.ctx
    exact ⟨_,_,.exported (.exported ran)⟩
  | call given =>
    obtain ⟨opening,r,entered,step⟩ := call_possible (sound_reached reached) given
    cases r with
    | some r => exact ⟨_,_,.refused step⟩
    | none =>
      have later := sound_reached (.snoc reached step)
      cases id step with
      | entered ran =>
        rename_i frame s
        let native : NativeResult := ⟨0,.ofInt binary32 0,.ofInt binary64 0,.ofInt extended80 0⟩
        obtain ⟨closing,back⟩ := return_possible (m := ⟨s,frame :: m.stack⟩) later rfl native
        exact ⟨_,_,.called step .nil rfl rfl back⟩
  | init | returned | caught => cases asked

-- A function returns the exception value exactly when it leaves an exception pending:
-- in these cases and in no others.
theorem exception_discipline (reached : Reached history m) (clean : m.ctx.pending = false)
    (engine : ∀ given, a.arguments = some given → ∀ v ∈ given, ∀ n, v.buffer ≠ some (0,n)) :
    (a.arguments.isSome → ∃ r next, Answers m a r next) ∧
    ∀ r next, Answers m a r next → ((r = .exception ↔ next.ctx.pending = true) ↔ Keeps m.ctx a) := by
  refine ⟨answers_possible reached,?_⟩
  intro r next answers
  cases answers with
  | define step =>
    cases step with
    | define ran =>
      rename_i ffi given _ _
      obtain ⟨rfl,n,base,rfl,_⟩ := define_parts ran
      rw [← define_keeps m.ctx ffi given]
      simp [defined,clean]
  | exported step =>
    cases step with
    | exported ran =>
      rename_i host e given s log
      obtain ⟨_,_,_,gives,_⟩ := e.run_gives host given m.ctx
      obtain ⟨rfl,rfl,_⟩ := ran.unique gives
      rw [← exported_keeps m.ctx host e given]
      simp [clean]
  | refused step =>
    cases step with
    | refused ran => exact refused_keeps clean (engine _ rfl) (call_parts (sound_reached reached).registered ran)
  | called step nested level calm back =>
    obtain ⟨number,quiet,keeps⟩ := called_keeps reached clean step nested calm back
    simp [number,quiet,keeps]

theorem exception_discipline_abs : (absDefined.action.arguments.isSome → ∃ r next, Answers freshMachine absDefined.action r next) ∧
    ∀ r next, Answers freshMachine absDefined.action r next →
      ((r = .exception ↔ next.ctx.pending = true) ↔ Keeps freshMachine.ctx absDefined.action) := by
  refine exception_discipline fresh_reached rfl ?_
  intro given same v member n
  cases same
  have plain : ∀ v ∈ absDefine, v.buffer = none := by decide +kernel
  simp [plain v member]

-- define(Symbol()) answers false and leaves the TypeError of the conversion pending.
theorem define_swallows : Answers freshMachine (.define plainLibffi [JSValue.symbol.argument]) (.bool false)
    ⟨{freshMachine.ctx with pending := true},[]⟩ := .define (.define rfl)

theorem exceptions_lost : ¬ ∀ history m a r next, Reached history m → m.ctx.pending = false →
    (∀ given, a.arguments = some given → ∀ v ∈ given, ∀ n, v.buffer ≠ some (0,n)) → Answers m a r next →
    (r = .exception ↔ next.ctx.pending = true) := by
  intro claimed
  have plain : JSValue.symbol.argument.buffer = none := rfl
  have agree := claimed _ _ (.define plainLibffi [JSValue.symbol.argument]) _ _ fresh_reached rfl ?whole define_swallows
  case whole =>
    intro given same v member n
    cases same
    rw [List.mem_singleton.mp member,plain]
    exact nofun
  simp at agree

end QjsFfi
