import Mathlib.Data.List.Nodup

namespace Histories

-- Runs of a labelled step relation; the history lists the labels oldest first.
inductive Runs (step : σ → ρ → σ → Prop) (start : σ) : List ρ → σ → Prop where
  | nil : Runs step start [] start
  | snoc : Runs step start history s → step s label next → Runs step start (history++[label]) next

namespace Runs

theorem append (first : Runs step a one b) (second : Runs step b two c) :
    Runs step a (one++two) c := by
  induction second with
  | nil => simpa using first
  | snoc _ last ih => rw [← List.append_assoc]; exact .snoc ih last

theorem split (run : Runs step start history s) (parts : history = before++label :: after) :
    ∃ a b, Runs step start before a ∧ step a label b ∧ Runs step b after s := by
  induction run generalizing after with
  | nil => simp at parts
  | snoc prior last ih =>
    rcases List.eq_nil_or_concat' after with rfl | ⟨rest,final,rfl⟩
    · obtain ⟨rfl,same⟩ := List.append_inj' parts rfl
      cases same
      exact ⟨_,_,prior,last,.nil⟩
    · have assoc : before++label :: (rest++[final]) = (before++label :: rest)++[final] := by simp
      obtain ⟨same,final⟩ := List.append_inj' (parts.trans assoc) rfl
      cases final
      obtain ⟨a,b,first,second,third⟩ := ih same
      exact ⟨a,b,first,second,.snoc third last⟩

theorem unique (functional : ∀ a label b c, step a label b → step a label c → b = c) (one : Runs step start history s)
    (two : Runs step start history t) : s = t := by
  induction one generalizing t with
  | nil =>
    generalize past : ([] : List _) = none at two
    cases two with
    | nil => rfl
    | snoc => simp at past
  | snoc prior last ih =>
    generalize past : _++[_] = all at two
    cases two with
    | nil => simp at past
    | snoc before final =>
      obtain ⟨rfl,same⟩ := List.append_inj' past rfl
      cases same
      obtain rfl := ih before
      exact functional _ _ _ _ last final

theorem mono (wider : ∀ a label b, step a label b → step' a label b) (run : Runs step start history s) :
    Runs step' start history s := by
  induction run with
  | nil => exact .nil
  | snoc _ last ih => exact .snoc ih (wider _ _ _ last)

theorem confined {kind : ρ → Prop} (run : Runs step start history s) (all : ∀ label ∈ history, kind label) :
    Runs (fun a label b => step a label b ∧ kind label) start history s := by
  induction run with
  | nil => exact .nil
  | snoc _ last ih =>
    have earlier := ih (fun label member => all label (List.mem_append_left _ member))
    exact .snoc earlier ⟨last,all _ (List.mem_append_right _ List.mem_cons_self)⟩

theorem invariant {Inv : List ρ → σ → Prop} (initial : Inv [] start)
    (kept : ∀ history s label next, Runs step start history s → Inv history s →
      step s label next → Inv (history++[label]) next)
    (run : Runs step start history s) : Inv history s := by
  induction run with
  | nil => exact initial
  | snoc prior last ih => exact kept _ _ _ _ prior ih last

end Runs

-- A list of keyed nodes, newest first, in which the first node of a key stays.
section FirstWins
variable {κ ν : Type} [DecidableEq κ] (key : ν → κ)

def find (nodes : List ν) (k : κ) : Option ν := nodes.find? (fun n => decide (key n = k))

def add (nodes : List ν) (n : ν) : List ν :=
  if (find key nodes (key n)).isSome then nodes else n :: nodes

def replay (nodes : List ν) (added : List ν) : List ν := added.foldl (add key) nodes

variable {key}

theorem find_mem {nodes : List ν} (found : find key nodes k = some n) : n ∈ nodes :=
  List.mem_of_find?_eq_some found

theorem find_none {nodes : List ν} : find key nodes k = none ↔ k ∉ nodes.map key := by
  simp [find,List.find?_eq_none]

theorem find_cons (n : ν) (nodes : List ν) (k : κ) :
    find key (n :: nodes) k = if key n = k then some n else find key nodes k := by
  by_cases same : key n = k <;> simp [find,same]

theorem find_unique {nodes : List ν} (distinct : (nodes.map key).Nodup) (member : n ∈ nodes) :
    find key nodes (key n) = some n := by
  induction nodes with
  | nil => cases member
  | cons x rest ih =>
    rw [List.map_cons,List.nodup_cons] at distinct
    rw [find_cons]
    rcases List.mem_cons.mp member with rfl | old
    · simp
    · have different : key x ≠ key n := fun same => distinct.1 (same ▸ List.mem_map_of_mem old)
      rw [if_neg different]
      exact ih distinct.2 old

theorem add_old {nodes : List ν} (found : find key nodes (key n) = some older) :
    add key nodes n = nodes := by simp [add,found]

theorem add_new {nodes : List ν} (fresh : find key nodes (key n) = none) :
    add key nodes n = n :: nodes := by simp [add,fresh]

theorem add_nodup {nodes : List ν} (distinct : (nodes.map key).Nodup) :
    ((add key nodes n).map key).Nodup := by
  cases found : find key nodes (key n) with
  | some older => rwa [add_old found]
  | none =>
    rw [add_new found,List.map_cons,List.nodup_cons]
    exact ⟨find_none.mp found,distinct⟩

theorem find_add (nodes : List ν) (n : ν) (k : κ) :
    find key (add key nodes n) k = (find key nodes k).or (if key n = k then some n else none) := by
  cases found : find key nodes (key n) with
  | some older =>
    rw [add_old found]
    by_cases same : key n = k
    · subst same; simp [found]
    · simp [same]
  | none =>
    rw [add_new found,find_cons]
    by_cases same : key n = k
    · subst same; simp [found]
    · simp [same]

theorem replay_nodup {nodes : List ν} (distinct : (nodes.map key).Nodup) (added : List ν) :
    ((replay key nodes added).map key).Nodup := by
  induction added generalizing nodes with
  | nil => exact distinct
  | cons n rest ih => exact ih (add_nodup distinct)

-- First insertion wins: an old node, or else the first one added with the key.
theorem find_replay (nodes added : List ν) (k : κ) :
    find key (replay key nodes added) k = (find key nodes k).or (find key added k) := by
  induction added generalizing nodes with
  | nil => simp [replay,find]
  | cons n rest ih =>
    change find key (replay key (add key nodes n) rest) k = _
    rw [ih,find_add,find_cons]
    by_cases same : key n = k <;> cases find key nodes k <;> simp [same]

theorem replay_known {nodes added : List ν} (known : ∀ n ∈ added, (find key nodes (key n)).isSome) :
    replay key nodes added = nodes := by
  induction added with
  | nil => rfl
  | cons n rest ih =>
    obtain ⟨older,found⟩ := Option.isSome_iff_exists.mp (known n List.mem_cons_self)
    change replay key (add key nodes n) rest = nodes
    rw [add_old found]
    exact ih (fun x member => known x (List.mem_cons_of_mem _ member))

end FirstWins

end Histories
