import QjsFfi.ReleaseDiscipline

namespace QjsFfi
open BinaryFloat Activation Histories

instance (given : List JSValueConst) (op : Acquirer) : Decidable (Interrupted given op) :=
  inferInstanceAs (Decidable (op = .dlopen ∧ ¬ JS_IsNull (argAt given 0) ∧ (argAt given 0).cstring.isSome ∧ (argAt given 1).toInt64 = none))

-- A dlopen that returned between its two conversions, and the text that it keeps.
def Record.interrupted (r : Record) : Bool :=
  match r.action with
  | .exported _ .dlopen given => Interrupted given .dlopen
  | _ => false

def Record.lost (r : Record) : List Nat := if r.interrupted then strings.taken r.events else []

theorem dlopen_keeps (ran : Gives (js_dlopen host given) s r t log) (interrupted : Interrupted given .dlopen) :
    strings.returned log = [] ∧ (strings.taken log).length = 1 := by
  obtain ⟨_,present,converts,flags⟩ := interrupted
  obtain ⟨text,converted⟩ := Option.isSome_iff_exists.mp converts
  have name : dlopenName given = some (some text) := by
    rw [dlopenName,if_neg present,converted]
    rfl
  obtain ⟨held,spelled,_,first⟩ := js_dlopen_name_some name s
  obtain ⟨c,rfl,_⟩ := Option.map_eq_some_iff.mp spelled
  obtain ⟨_,_,rfl⟩ := ran.unique (js_dlopen_lost host first flags)
  exact ⟨rfl,rfl⟩

theorem dlopen_settled (ran : Gives (js_dlopen host given) s r t log) (whole : ¬ Interrupted given .dlopen) :
    strings.Balanced log := by
  obtain ⟨_,_,_,gives,settles⟩ := dlopen_settled_iff host given s
  obtain ⟨rfl,rfl,rfl⟩ := ran.unique gives
  exact (settles.mpr whole).texts

theorem Ledger.exact (ledger : Ledger history m lost) (sound : Sound history m) (step : Step m label next) :
    Ledger (history++[label]) next (lost++label.lost) ∧ label.lost.length = if label.interrupted then 1 else 0 := by
  have calm : (∀ host e given, label.action ≠ .exported host e given) → label.interrupted = false := by
    intro other
    unfold Record.interrupted
    split
    · rename_i action
      exact absurd action (other _ _ _)
    · rfl
  cases id step with
  | exported ran =>
    rename_i r s log host e given
    obtain ⟨n,_,more,gives,trace,only⟩ := e.run_gives host given m.ctx
    obtain ⟨rfl,rfl,rfl⟩ := ran.unique gives
    by_cases opens : e = .dlopen
    · subst opens
      by_cases interrupted : Interrupted given .dlopen
      · obtain ⟨nothing,one⟩ := dlopen_keeps ran interrupted
        have keeps : Record.interrupted ⟨.exported host .dlopen given,log,some (Export.dlopen.value host given)⟩ = true :=
          decide_eq_true interrupted
        rw [Record.lost,keeps]
        refine ⟨ledger.exported ⟨trace.texts,trace.distinct,?_,trace.blocks,trace.silent⟩,one⟩
        rw [nothing]
        exact List.Perm.refl _
      · have settled := dlopen_settled ran interrupted
        have keeps : Record.interrupted ⟨.exported host .dlopen given,log,some (Export.dlopen.value host given)⟩ = false :=
          decide_eq_false interrupted
        rw [Record.lost,keeps]
        refine ⟨ledger.exported ⟨trace.texts,trace.distinct,?_,trace.blocks,trace.silent⟩,rfl⟩
        simpa using settled.2
    · have keeps : Record.interrupted ⟨.exported host e given,log,some (e.value host given)⟩ = false := by
        cases e <;> first | rfl | exact absurd rfl opens
      rw [Record.lost,keeps]
      have nothing := only opens
      subst nothing
      exact ⟨ledger.exported trace,rfl⟩
  | _ =>
    have whole := calm (by simp)
    rw [Record.lost,whole]
    refine ⟨?_,rfl⟩
    simpa using ledger.kept sound step (by simp)

theorem ledger_exact (reached : Reached history m) :
    Ledger history m (history.flatMap Record.lost) ∧
      (history.flatMap Record.lost).length = (history.filter Record.interrupted).length := by
  unfold Reached at reached
  induction reached with
  | nil => exact ⟨ledger_start,rfl⟩
  | snoc prior last ih =>
    obtain ⟨ledger,count⟩ := ih
    obtain ⟨after,one⟩ := ledger.exact (sound_reached prior) last
    rw [List.flatMap_append,List.flatMap_singleton]
    refine ⟨after,?_⟩
    rw [List.length_append,count,one,List.filter_append,List.length_append]
    congr 1
    split <;> rename_i flag <;> simp [flag]

theorem typeBlocks_length (reached : Reached history m) :
    (history.flatMap Record.typeBlocks).length = 2*m.ctx.ffi_type_head.length := by
  unfold Reached at reached
  induction reached with
  | nil => rfl
  | snoc prior last ih =>
    rename_i history m label next
    have before := (sound_reached prior).types
    have after := (sound_reached (.snoc prior last)).types
    by_cases first : label.initialises = true
    · cases last with
      | init ran =>
        obtain ⟨n,rfl,rfl,grown⟩ := js_init_parts ran
        obtain ⟨_,_,taken,_⟩ := malloc_custody (List.range' m.ctx.fresh n)
        rw [List.flatMap_append,List.flatMap_singleton,List.length_append,ih]
        simp only [Record.typeBlocks,taken,List.length_range']
        exact grown.symm
      | _ => cases first
    · have other : label.typeBlocks = [] := by
        cases last with
        | init => exact absurd rfl first
        | _ => rfl
      rw [initialises_other history (Bool.eq_false_iff.mpr first),← before] at after
      rw [typeBlocks_other history other,ih,after]

-- Every C string of a run has been released, belongs to a call that waits or was lost by
-- an interrupted dlopen, one each; every block has been freed, is scratch of a call that
-- waits, or belongs to a registered function or to a type; and none is counted twice.
theorem memory_accounts (reached : Reached history m) :
    (strings.taken (eventsOf history)).Nodup ∧
    (strings.returned (eventsOf history)++(m.texts++history.flatMap Record.lost)).Perm (strings.taken (eventsOf history)) ∧
    (history.flatMap Record.lost).length = (history.filter Record.interrupted).length ∧
    (blocks.taken (eventsOf history)).Nodup ∧
    (blocks.returned (eventsOf history)++(m.scratch++(m.nodes++history.flatMap Record.typeBlocks))).Perm (blocks.taken (eventsOf history)) ∧
    (history.flatMap Record.typeBlocks).length = 2*m.ctx.ffi_type_head.length := by
  obtain ⟨ledger,count⟩ := ledger_exact reached
  exact ⟨ledger.texts.distinct,ledger.texts.settled,count,ledger.blocks.distinct,ledger.blocks.settled,typeBlocks_length reached⟩

theorem memory_accounts_dlopen : ∃ history m, Reached history m ∧ m.stack = [] ∧
    (strings.taken (eventsOf history)).length = (strings.returned (eventsOf history)).length+1 ∧
    (history.flatMap Record.typeBlocks).length = 66 := by
  obtain ⟨n,log,_,ran,_⟩ := js_dlopen_gives absHost namedSymbol freshMachine.ctx
  have reached : Reached [initialisation,⟨.exported absHost .dlopen namedSymbol,log,some (dlopenValue absHost namedSymbol)⟩] ⟨_,[]⟩ :=
    .snoc fresh_reached (.exported ran)
  obtain ⟨_,texts,count,_,_,types⟩ := memory_accounts reached
  have interrupted : Interrupted namedSymbol .dlopen := by decide
  have length := texts.length_eq
  rw [List.length_append,List.length_append,count] at length
  have first : initialisation.interrupted = false := rfl
  have second : Record.interrupted ⟨.exported absHost .dlopen namedSymbol,log,some (dlopenValue absHost namedSymbol)⟩ = true :=
    decide_eq_true interrupted
  have known : 2*freshMachine.ctx.ffi_type_head.length = 66 := by decide +kernel
  refine ⟨_,_,reached,rfl,?_,by simpa only [Ctx.bump_types,known] using types⟩
  rw [List.filter_cons_of_neg (by simp [first]),List.filter_cons_of_pos second] at length
  simpa [Machine.texts] using length.symm

end QjsFfi
