import Mathlib.Data.List.Basic
import Mathlib.Tactic.Common

namespace Patterns

-- One character of a class, or as many of them as the rest of the pattern lets it have.
inductive Item (α : Type u) where
  | one (p : α → Bool)
  | many (p : α → Bool) (least : ℕ)

def Item.choices (text : List α) : Item α → List ℕ
  | .one p => if (text.head?.any p) then [1] else []
  | .many p least => (List.range' least ((text.takeWhile p).length+1-least)).reverse

-- A match at the start of a text by backtracking, item by item; none if there is none.
def run : List (Item α) → List α → Option (List (List α))
  | [],_ => some []
  | item :: rest,text => (item.choices text).findSome? (fun n => (run rest (text.drop n)).map (fun parts => text.take n :: parts))

def word [DecidableEq α] (text : List α) : List (Item α) := text.map (fun c => .one (fun d => d = c))

def replace (pattern : List (Item α)) (group : ℕ) (text : List α) : List α :=
  match run pattern text with
  | some parts => (parts[group]?.getD [])++text.drop parts.flatten.length
  | none => text

section Runs
variable {rest : List (Item α)} {text : List α} {p : α → Bool}

theorem run_one (c : α) (cs : List α) : run (.one p :: rest) (c :: cs) = if p c then (run rest cs).map (fun parts => [c] :: parts) else none := by
  by_cases yes : p c = true <;> simp [run,Item.choices,yes]

theorem run_word [DecidableEq α] (rest : List (Item α)) (w cs : List α) : run (word w++rest) (w++cs) = (run rest cs).map (fun parts => w.map (fun c => [c])++parts) := by
  induction w with
  | nil => simp [word]
  | cons c w ih =>
    rw [word,List.map_cons,List.cons_append,List.cons_append,run_one,if_pos (decide_eq_true rfl)]
    rw [← word,ih,Option.map_map]
    rfl

theorem run_word_prefix [DecidableEq α] {w : List α} (ran : run (word w++rest) text = some parts) : w <+: text := by
  induction w generalizing text parts with
  | nil => exact List.nil_prefix
  | cons c w ih =>
    cases text with
    | nil => simp [word,run,Item.choices] at ran
    | cons d cs =>
      rw [word,List.map_cons,List.cons_append,run_one,← word] at ran
      split at ran
      · rename_i same
        obtain ⟨later,onward,_⟩ := Option.map_eq_some_iff.mp ran
        have equal : d = c := of_decide_eq_true same
        rw [equal]
        exact (List.prefix_cons_inj c).mpr (ih onward)
      · cases ran

theorem take_run (p : α → Bool) (text : List α) : text.take (text.takeWhile p).length = text.takeWhile p := by
  have split : text = text.takeWhile p++text.dropWhile p := List.takeWhile_append_dropWhile.symm
  exact (congrArg (List.take (text.takeWhile p).length) split).trans List.take_left

theorem drop_run (p : α → Bool) (text : List α) : text.drop (text.takeWhile p).length = text.dropWhile p := by
  have split : text = text.takeWhile p++text.dropWhile p := List.takeWhile_append_dropWhile.symm
  exact (congrArg (List.drop (text.takeWhile p).length) split).trans List.drop_left

theorem run_longest (least : ℕ) (enough : least ≤ (text.takeWhile p).length) (ran : run rest (text.dropWhile p) = some parts) :
    run (.many p least :: rest) text = some (text.takeWhile p :: parts) := by
  have choices : (Item.many p least).choices text = (text.takeWhile p).length ::
      (List.range' least ((text.takeWhile p).length-least)).reverse := by
    have count : (text.takeWhile p).length+1-least = ((text.takeWhile p).length-least)+1 := by omega
    have last : least+1*((text.takeWhile p).length-least) = (text.takeWhile p).length := by omega
    rw [Item.choices,count,List.range'_concat,last,List.reverse_append]
    rfl
  rw [run,choices,List.findSome?_cons,drop_run,take_run,ran]
  rfl

theorem run_stretch {front back : List α} (least : ℕ) (stretch : ∀ c ∈ front, p c = true) (ends : ∀ c, back.head? = some c → p c = false)
    (enough : least ≤ front.length) (ran : run rest back = some parts) : run (.many p least :: rest) (front++back) = some (front :: parts) := by
  have tail : back.takeWhile p = [] ∧ back.dropWhile p = back := by
    cases back with
    | nil => exact ⟨rfl,rfl⟩
    | cons c cs => simp [ends c rfl]
  have taken : (front++back).takeWhile p = front := by
    rw [List.takeWhile_append_of_pos stretch,tail.1,List.append_nil]
  have dropped : (front++back).dropWhile p = back := by
    rw [List.dropWhile_append_of_pos stretch,tail.2]
  have longest := run_longest least (taken.symm ▸ enough) (dropped.symm ▸ ran)
  rwa [taken] at longest

theorem run_only (least : ℕ) (blocked : ∀ c cs, p c = true → run rest (c :: cs) = none)
    (ran : run (.many p least :: rest) text = some parts) :
    least ≤ (text.takeWhile p).length ∧ ∃ later, run rest (text.dropWhile p) = some later ∧ parts = text.takeWhile p :: later := by
  rw [run] at ran
  obtain ⟨n,tried,found⟩ := List.exists_of_findSome?_eq_some ran
  obtain ⟨later,onward,rfl⟩ := Option.map_eq_some_iff.mp found
  have chosen : least ≤ n ∧ n < least+((text.takeWhile p).length+1-least) := by
    simpa [Item.choices] using tried
  have whole : n = (text.takeWhile p).length := by
    by_contra shorter
    have below : n < (text.takeWhile p).length := by omega
    have inside : n < text.length := Nat.lt_of_lt_of_le below (List.takeWhile_prefix p).length_le
    have element : p text[n] = true := by
      have same : (text.takeWhile p)[n] = text[n] := List.IsPrefix.getElem (List.takeWhile_prefix p) below
      rw [← same]
      exact List.all_eq_true.mp List.all_takeWhile _ (List.getElem_mem below)
    rw [List.drop_eq_getElem_cons inside,blocked _ _ element] at onward
    cases onward
  subst whole
  rw [drop_run] at onward
  rw [take_run]
  exact ⟨chosen.1,later,onward,rfl⟩

end Runs

end Patterns
