import Mathlib.Data.List.Induction
import QjsFfi.Histories

namespace Automata
open Histories

def feed (next : σ → α → Option (σ × ω)) : σ → List α → Option (σ × List ω)
  | s,[] => some (s,[])
  | s,i :: rest => (next s i).bind (fun a => (feed next a.1 rest).map (fun b => (b.1,a.2 :: b.2)))

section Replay
variable {next : σ → α → Option (σ × ω)}

theorem feed_cons (first : next s i = some (t,o)) (later : feed next t rest = some (u,outputs)) :
    feed next s (i :: rest) = some (u,o :: outputs) := by
  simp [feed,first,later]

theorem feed_uncons (ran : feed next s (i :: rest) = some (u,outputs)) :
    ∃ t o later, next s i = some (t,o) ∧ feed next t rest = some (u,later) ∧ outputs = o :: later := by
  obtain ⟨⟨t,o⟩,first,ran⟩ := Option.bind_eq_some_iff.mp ran
  obtain ⟨⟨v,later⟩,onward,same⟩ := Option.map_eq_some_iff.mp ran
  cases same
  exact ⟨t,o,later,first,onward,rfl⟩

theorem feed_append (front : feed next s one = some (t,outputs)) (back : feed next t two = some (u,more)) :
    feed next s (one++two) = some (u,outputs++more) := by
  induction one generalizing s outputs with
  | nil =>
    cases front
    exact back
  | cons i rest ih =>
    obtain ⟨v,o,later,first,onward,rfl⟩ := feed_uncons front
    exact feed_cons first (ih onward)

theorem feed_split (ran : feed next s (one++two) = some (u,outputs)) :
    ∃ t front back, feed next s one = some (t,front) ∧ feed next t two = some (u,back) ∧ outputs = front++back := by
  induction one generalizing s outputs with
  | nil => exact ⟨s,[],outputs,rfl,ran,rfl⟩
  | cons i rest ih =>
    obtain ⟨v,o,later,first,onward,rfl⟩ := feed_uncons ran
    obtain ⟨t,front,back,early,late,rfl⟩ := ih onward
    exact ⟨t,o :: front,back,feed_cons first early,late,rfl⟩

theorem feed_one (first : next s i = some (t,o)) : feed next s [i] = some (t,[o]) := feed_cons first rfl

end Replay

-- A system of labelled steps that does, step for step, what the automaton answers.
structure Realises (step : κ → ρ → κ → Prop) (input : ρ → α) (output : ρ → ω) (next : σ → α → Option (σ × ω))
    (Rel : List ρ → κ → σ → Prop) : Prop where
  sound : ∀ {history c s label d}, Rel history c s → step c label d →
    ∃ t, next s (input label) = some (t,output label) ∧ Rel (history++[label]) d t
  complete : ∀ {history c s i t o}, Rel history c s → next s i = some (t,o) → ∃ label d, step c label d ∧ input label = i

namespace Realises
variable {step : κ → ρ → κ → Prop} {input : ρ → α} {output : ρ → ω} {next : σ → α → Option (σ × ω)} {Rel : List ρ → κ → σ → Prop}

theorem run (realises : Realises step input output next Rel) (related : Rel h c s) (ran : Runs step c history d) :
    ∃ t, feed next s (history.map input) = some (t,history.map output) ∧ Rel (h++history) d t := by
  induction ran with
  | nil => exact ⟨s,rfl,by rwa [List.append_nil]⟩
  | snoc _ last ih =>
    obtain ⟨t,front,between⟩ := ih
    obtain ⟨u,answer,after⟩ := realises.sound between last
    refine ⟨u,?_,by rwa [← List.append_assoc]⟩
    rw [List.map_append,List.map_append]
    exact feed_append front (feed_one answer)

theorem reaches (realises : Realises step input output next Rel) (related : Rel h c s)
    (ran : feed next s inputs = some (t,outputs)) :
    ∃ history d, Runs step c history d ∧ history.map input = inputs ∧ history.map output = outputs ∧ Rel (h++history) d t := by
  induction inputs using List.reverseRecOn generalizing t outputs with
  | nil =>
    cases ran
    exact ⟨[],c,.nil,rfl,rfl,by rwa [List.append_nil]⟩
  | append_singleton inputs i ih =>
    obtain ⟨u,front,back,early,late,rfl⟩ := feed_split ran
    obtain ⟨history,d,before,same,answers,between⟩ := ih early
    obtain ⟨v,o,rest,first,nothing,rfl⟩ := feed_uncons late
    cases nothing
    obtain ⟨label,e,last,asked⟩ := realises.complete between first
    obtain ⟨w,answer,after⟩ := realises.sound between last
    rw [asked,first] at answer
    cases answer
    refine ⟨history++[label],e,.snoc before last,?_,?_,by rwa [← List.append_assoc]⟩
    · rw [List.map_append,same,List.map_singleton,asked]
    · rw [List.map_append,answers,List.map_singleton]

def Traces (step : κ → ρ → κ → Prop) (input : ρ → α) (output : ρ → ω) (c : κ) (inputs : List α) (outputs : List ω) : Prop :=
  ∃ history d, Runs step c history d ∧ history.map input = inputs ∧ history.map output = outputs

def Confined (step : κ → ρ → κ → Prop) (input : ρ → α) (kind : α → Prop) (c : κ) (label : ρ) (d : κ) : Prop :=
  step c label d ∧ kind (input label)

theorem Traces.confined {kind : α → Prop} (all : ∀ i ∈ inputs, kind i) :
    Traces step input output c inputs outputs ↔ Traces (Confined step input kind) input output c inputs outputs := by
  refine ⟨?_,?_⟩
  · rintro ⟨history,d,ran,rfl,answered⟩
    have own : ∀ label ∈ history, kind (input label) := fun label member => all _ (List.mem_map_of_mem member)
    exact ⟨history,d,ran.confined own,rfl,answered⟩
  · rintro ⟨history,d,ran,asked,answered⟩
    exact ⟨history,d,ran.mono (fun _ _ _ step => step.1),asked,answered⟩

theorem traces (realises : Realises step input output next Rel) (related : Rel h c s) :
    Traces step input output c inputs outputs ↔ ∃ t, feed next s inputs = some (t,outputs) := by
  refine ⟨?_,?_⟩
  · rintro ⟨history,d,ran,rfl,rfl⟩
    obtain ⟨t,answers,_⟩ := realises.run related ran
    exact ⟨t,answers⟩
  · rintro ⟨t,answers⟩
    obtain ⟨history,d,ran,asked,answered,_⟩ := realises.reaches related answers
    exact ⟨history,d,ran,asked,answered⟩

-- Two systems that do what one automaton does have the same traces.
theorem alike {step' : κ' → ρ' → κ' → Prop} {input' : ρ' → α} {output' : ρ' → ω} {Rel' : List ρ' → κ' → σ → Prop}
    (one : Realises step input output next Rel) (two : Realises step' input' output' next Rel') (related : Rel h c s)
    (related' : Rel' k c' s) (inputs : List α) (outputs : List ω) :
    Traces step input output c inputs outputs ↔ Traces step' input' output' c' inputs outputs :=
  (one.traces related).trans (two.traces related').symm

end Realises

end Automata
