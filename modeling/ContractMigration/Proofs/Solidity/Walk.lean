import ContractMigration.Proofs.Numbered
import ContractMigration.Proofs.Solidity.Units
import Mathlib.Logic.Function.Iterate

/-! The walk that collects the members of a declaration. A loop takes trees from a stack and puts their parts there, the
last one first, but it does not go into members and into phrases in which none stands. It ends when it has visited what a
recursive walk meets, which is each tree before its parts and the parts from left to right, and members are collected in that
order. -/

namespace ContractMigration.Solidity

variable {t u : Tree} {ts rest : List Tree} {p : Phrase}

/-! ### The recursive walk -/

/-- Members, and phrases in which none stands. -/
def sealedPhrases : List Phrase :=
  [.function, .stateVariable, .constructor, .modifier, .fallback, .parent, .struct, .enum, .event, .error]

/-- Where a tree stands in another one: the numbers of the parts through which one comes to it. -/
abbrev Route := List ℕ

namespace Tree

/-- The walk does not go into the tree. -/
def IsSealed (t : Tree) : Prop := ∃ p ∈ sealedPhrases, t.phrase? = some p

instance (t : Tree) : Decidable t.IsSealed := inferInstanceAs (Decidable (∃ p ∈ sealedPhrases, _))

/-- The parts of a tree that the walk goes into. -/
def openParts (t : Tree) : List Tree := if t.IsSealed then [] else t.children

mutual

/-- What a recursive walk meets, each tree with where it stands: the tree itself, then its parts from left to right. -/
def walk (here : Route) : Tree → List (Route × Tree)
  | leaf token => [(here, leaf token)]
  | node p ts => (here, node p ts) :: if p ∈ sealedPhrases then [] else walkAll here 0 ts

/-- What the walk meets in several parts of a tree, the first of which has this number. -/
def walkAll (here : Route) (i : ℕ) : List Tree → List (Route × Tree)
  | [] => []
  | t :: r => t.walk (here ++ [i]) ++ walkAll here (i + 1) r

end

/-- The tree that stands in another one. -/
def subtree? (t : Tree) : Route → Option Tree
  | [] => some t
  | i :: r => t.children[i]?.bind fun u => u.subtree? r

theorem isSealed_node : (node p ts).IsSealed ↔ p ∈ sealedPhrases := by
  simp [IsSealed, phrase?]

theorem getElem?_openParts {i : ℕ} : t.openParts[i]? = some u ↔ ¬t.IsSealed ∧ t.children[i]? = some u := by
  rw [openParts]
  split_ifs with h <;> simp [h]

theorem mem_children_of_mem_openParts (h : u ∈ t.openParts) : u ∈ t.children := by
  rw [openParts] at h
  split_ifs at h
  · cases h
  · exact h

theorem walkAll_eq (here : Route) (i : ℕ) (ts : List Tree) :
    walkAll here i ts = (ts.zipIdx i).flatMap fun x => x.1.walk (here ++ [x.2]) := by
  induction ts generalizing i with
  | nil => rfl
  | cons t ts ih => rw [walkAll, ih, List.zipIdx_cons, List.flatMap_cons]

theorem walk_eq (here : Route) (t : Tree) :
    t.walk here = (here, t) :: numbered t.openParts fun i u => u.walk (here ++ [i]) := by
  cases t with
  | leaf token => rfl
  | node p ts =>
    rw [walk, walkAll_eq, openParts]
    simp only [isSealed_node]
    split_ifs <;> rfl

theorem weight_le_weights (h : u ∈ ts) : u.weight ≤ weights ts := by
  induction ts with
  | nil => cases h
  | cons t ts ih =>
    rw [weights]
    rcases List.mem_cons.mp h with rfl | h
    · omega
    · have := ih h
      omega

theorem weight_lt_of_mem_children (h : u ∈ t.children) : u.weight < t.weight := by
  cases t with
  | leaf token => cases h
  | node p ts =>
    have hle : u.weight ≤ weights ts := weight_le_weights h
    rw [weight]
    omega

/-- What holds of a tree whenever it holds of its parts holds of all trees. -/
theorem of_children {P : Tree → Prop} (h : ∀ t, (∀ u ∈ t.children, P u) → P t) (t : Tree) : P t :=
  h t fun u _ => of_children h u
termination_by t.weight
decreasing_by exact weight_lt_of_mem_children ‹_›

/-- What the walk meets stands in the tree at which it begins. -/
theorem isPrefix_of_mem_walk (t : Tree) : ∀ here, ∀ x ∈ t.walk here, here <+: x.1 := by
  induction t using of_children with
  | h t ih =>
    intro here x hx
    rw [walk_eq, List.mem_cons, mem_numbered] at hx
    rcases hx with rfl | ⟨i, u, hu, hx⟩
    · exact List.prefix_rfl
    · have hmem : u ∈ t.children := List.mem_of_getElem? (getElem?_openParts.mp hu).2
      exact (List.prefix_append here [i]).trans (ih u hmem (here ++ [i]) x hx)

/-- What the walk meets in a part stands at the number of the part. -/
theorem exists_route {here : Route} {i : ℕ} {x : Route × Tree} (h : x ∈ u.walk (here ++ [i])) :
    ∃ back, x.1 = here ++ i :: back := by
  obtain ⟨back, hback⟩ := isPrefix_of_mem_walk u (here ++ [i]) x h
  exact ⟨back, by rw [← hback, List.append_assoc, List.singleton_append]⟩

/-- The walk meets trees in the order in which they stand: each one before its parts, and the parts from left to right. -/
theorem pairwise_walk (t : Tree) : ∀ here, (t.walk here).Pairwise fun x y => x.1 < y.1 := by
  induction t using of_children with
  | h t ih =>
    intro here
    rw [walk_eq, List.pairwise_cons]
    refine ⟨fun x hx => ?first, pairwise_numbered_of_mem (fun i u hu => ?within) fun i j u v hij x hx y hy => ?between⟩
    case first =>
      obtain ⟨i, u, -, hx⟩ := mem_numbered.mp hx
      obtain ⟨back, hback⟩ := exists_route hx
      have hlt : here ++ [] < here ++ i :: back := List.append_left_lt (List.nil_lt_cons i back)
      rwa [List.append_nil, ← hback] at hlt
    case within => exact ih u (mem_children_of_mem_openParts hu) (here ++ [i])
    case between =>
      obtain ⟨back, hback⟩ := exists_route hx
      obtain ⟨back', hback'⟩ := exists_route hy
      rw [hback, hback']
      exact List.append_left_lt (List.cons_lt_cons_iff.mpr (.inl hij))

/-- A tree stands in another one, and the walk goes into all that is around it. -/
structure Reachable (t : Tree) (route : Route) (u : Tree) : Prop where
  stands : t.subtree? route = some u
  around : ∀ outer v, outer <+: route → outer ≠ route → t.subtree? outer = some v → ¬v.IsSealed

theorem reachable_nil : t.Reachable [] u ↔ u = t := by
  refine ⟨fun h => (Option.some.inj h.stands).symm, fun h => ⟨congrArg some h.symm, fun outer v hle hne => ?_⟩⟩
  exact absurd (List.prefix_nil.mp hle) hne

theorem reachable_cons {i : ℕ} {route : Route} :
    t.Reachable (i :: route) u ↔ ∃ v, t.openParts[i]? = some v ∧ v.Reachable route u := by
  constructor
  · intro h
    obtain ⟨v, hv, hu⟩ := Option.bind_eq_some_iff.mp h.stands
    have hopen : ¬t.IsSealed := h.around [] t List.nil_prefix (List.cons_ne_nil i route).symm rfl
    refine ⟨v, getElem?_openParts.mpr ⟨hopen, hv⟩, hu, fun outer w hle hne hw => ?_⟩
    refine h.around (i :: outer) w (List.cons_prefix_cons.mpr ⟨rfl, hle⟩) (fun heq => hne (List.cons.inj heq).2) ?_
    rw [subtree?, hv]
    exact hw
  · rintro ⟨v, hv, h⟩
    obtain ⟨hopen, hv⟩ := getElem?_openParts.mp hv
    refine ⟨by rw [subtree?, hv]; exact h.stands, fun outer w hle hne hw => ?_⟩
    cases outer with
    | nil => exact Option.some.inj hw ▸ hopen
    | cons j outer =>
      obtain ⟨rfl, hback⟩ := List.cons_prefix_cons.mp hle
      rw [subtree?, hv] at hw
      exact h.around outer w hback (fun heq => hne (congrArg _ heq)) hw

/-- The walk meets all trees that it can reach, and no others. -/
theorem mem_walk (route here : Route) (t : Tree) : (here ++ route, u) ∈ t.walk here ↔ t.Reachable route u := by
  induction route generalizing here t with
  | nil =>
    have hparts : (here, u) ∉ numbered t.openParts fun i v => v.walk (here ++ [i]) := fun h => by
      obtain ⟨i, v, -, h⟩ := mem_numbered.mp h
      obtain ⟨back, hback⟩ := exists_route h
      simp at hback
    rw [List.append_nil, reachable_nil, walk_eq, List.mem_cons, or_iff_left hparts, Prod.mk.injEq, and_iff_right rfl]
  | cons i route ih =>
    have hne : (here ++ i :: route, u) ≠ (here, t) := fun h => by simpa using congrArg Prod.fst h
    rw [reachable_cons, walk_eq, List.mem_cons, or_iff_right hne, mem_numbered]
    have happend : here ++ i :: route = here ++ [i] ++ route := by simp
    constructor
    · rintro ⟨j, v, hv, h⟩
      obtain ⟨back, hback⟩ := exists_route h
      obtain rfl : i = j := (List.cons.inj (List.append_cancel_left hback)).1
      exact ⟨v, hv, (ih (here ++ [i]) v).mp (happend ▸ h)⟩
    · rintro ⟨v, hv, h⟩
      exact ⟨i, v, hv, happend ▸ (ih (here ++ [i]) v).mpr h⟩

/-- What stands in a structure is not met, and what comes behind the body of a declaration is met after the body. -/
example : ((node .contract [node .body [node .function [node .name []], node .struct [node .stateVariable []],
    node .stateVariable []], node .name []]).walk []).map Prod.fst = [[], [0], [0, 0], [0, 1], [0, 2], [1]] := by decide

/-- The trees that the walk meets. -/
def visits (t : Tree) : List Tree := (t.walk []).map Prod.snd

theorem map_walk (t : Tree) : ∀ here, (t.walk here).map Prod.snd = t.visits := by
  induction t using of_children with
  | h t ih =>
    intro here
    have hparts : ∀ here : Route, (numbered t.openParts fun i u => u.walk (here ++ [i])).map Prod.snd =
        t.openParts.flatMap visits := by
      intro here
      apply map_numbered_of_mem
      intro i u hu
      exact ih u (mem_children_of_mem_openParts hu) (here ++ [i])
    rw [visits, walk_eq, walk_eq, List.map_cons, List.map_cons, hparts here, hparts []]

theorem visits_eq (t : Tree) : t.visits = t :: t.openParts.flatMap visits := by
  rw [visits, walk_eq, List.map_cons, map_numbered t.openParts fun i u => map_walk u _]

theorem visits_of_isSealed (h : t.IsSealed) : t.visits = [t] := by
  rw [visits_eq, openParts, if_pos h, List.flatMap_nil]

end Tree

/-! ### What is collected -/

/-- What a function or a state variable adds to the members. -/
def functionOf? (t : Tree) : Option FunctionSignature := if t.phrase? = some .function then signature? t else none

def variableOf? (t : Tree) : Option StateVariable := if t.phrase? = some .stateVariable then stateVariable? t else none

/-- The members among some trees, in the order of these. -/
def Members.among (ts : List Tree) : Members := ⟨ts.filterMap functionOf?, ts.filterMap variableOf?⟩

/-- The members of both, those of the first one in front. -/
def Members.append (m n : Members) : Members := ⟨m.functions ++ n.functions, m.stateVariables ++ n.stateVariables⟩

theorem Members.among_append (ts us : List Tree) : among (ts ++ us) = (among ts).append (among us) := by
  rw [among, List.filterMap_append, List.filterMap_append]
  rfl

theorem Members.among_cons (t : Tree) (ts : List Tree) :
    among (t :: ts) = ((among ts).addVariable (variableOf? t)).addFunction (functionOf? t) := by
  cases hf : functionOf? t <;> cases hv : variableOf? t <;> simp [among, addFunction, addVariable, hf, hv]

theorem Members.among_cons_of_ne (ts : List Tree) (hfunction : t.phrase? ≠ some .function)
    (hvariable : t.phrase? ≠ some .stateVariable) : among (t :: ts) = among ts := by
  rw [among_cons, functionOf?, if_neg hfunction, variableOf?, if_neg hvariable]
  rfl

theorem mem_sealedPhrases : p ∈ sealedPhrases ↔ p = .function ∨ p = .stateVariable ∨ p.isClosed = true := by
  cases p <;> decide

/-- Members are collected in the order of the walk. -/
theorem collect_eq (ts : List Tree) : collect ts = .among (ts.flatMap Tree.visits) := by
  have hsealed : ∀ {p ts}, (p = .function ∨ p = .stateVariable ∨ p.isClosed = true) →
      (Tree.node p ts).visits = [.node p ts] := fun h =>
    Tree.visits_of_isSealed (Tree.isSealed_node.mpr (mem_sealedPhrases.mpr h))
  fun_induction collect ts with
  | case1 => rfl
  | case2 v rest ih =>
    rw [List.flatMap_cons, Tree.visits_eq, ih]
    rfl
  | case3 ts rest ih =>
    rw [List.flatMap_cons, hsealed (.inl rfl), ih, List.singleton_append, Members.among_cons]
    rfl
  | case4 ts rest ih =>
    rw [List.flatMap_cons, hsealed (.inr (.inl rfl)), ih, List.singleton_append, Members.among_cons]
    rfl
  | case5 ts rest p hfunction hvariable hclosed ih =>
    rw [List.flatMap_cons, hsealed (.inr (.inr hclosed)), ih, List.singleton_append, Members.among_cons_of_ne]
    · exact fun h => hfunction (Option.some.inj h)
    · exact fun h => hvariable (Option.some.inj h)
  | case6 ts rest p hfunction hvariable hopen ih =>
    have hparts : (Tree.node p ts).openParts = ts := by
      rw [Tree.openParts, if_neg]
      · rfl
      · rw [Tree.isSealed_node, mem_sealedPhrases]
        rintro (h | h | h)
        exacts [hfunction h, hvariable h, hopen h]
    rw [List.flatMap_cons, Tree.visits_eq, hparts, ih, List.flatMap_append, List.cons_append, Members.among_cons_of_ne]
    · exact fun h => hfunction (Option.some.inj h)
    · exact fun h => hvariable (Option.some.inj h)

/-- A declaration has a name. -/
def Tree.IsNamed (t : Tree) : Prop := (t.childText? .name).getD "" ≠ ""

instance (t : Tree) : Decidable t.IsNamed := inferInstanceAs (Decidable (_ ≠ _))

/-- A function that others can call: one without a visibility can be called, too. -/
def Tree.IsExposedFunction (t : Tree) : Prop :=
  t.phrase? = some .function ∧ t.IsNamed ∧ t.visibility? ∈ [none, some .pub, some .external]

instance (t : Tree) : Decidable t.IsExposedFunction := inferInstanceAs (Decidable (_ ∧ _ ∧ _))

/-- A state variable that has a name. -/
def Tree.IsNamedVariable (t : Tree) : Prop := t.phrase? = some .stateVariable ∧ t.IsNamed

instance (t : Tree) : Decidable t.IsNamedVariable := inferInstanceAs (Decidable (_ ∧ _))

theorem isSome_functionOf? : (functionOf? t).isSome = true ↔ t.IsExposedFunction := by
  rw [functionOf?, Tree.IsExposedFunction]
  split_ifs with hphrase
  · rw [and_iff_right hphrase, signature?, Tree.IsNamed]
    rcases t.childText? .name with _ | name
    · simp
    · by_cases hname : name = ""
      · simp [hname]
      · rcases t.visibility? with _ | v
        · simp [hname, Visibility.isExposed]
        · cases v <;> simp [hname, Visibility.isExposed]
  · simp [hphrase]

theorem isSome_variableOf? : (variableOf? t).isSome = true ↔ t.IsNamedVariable := by
  rw [variableOf?, Tree.IsNamedVariable]
  split_ifs with hphrase
  · rw [and_iff_right hphrase, stateVariable?, Tree.IsNamed]
    rcases t.childText? .name with _ | name
    · simp
    · by_cases hname : name = "" <;> simp [hname]
  · simp [hphrase]

/-! ### The loop -/

/-- Where the loop is: the trees on the stack, the one to be visited next at its end, those visited so far, and the members
found among these. -/
structure Visit where
  stack : List (Route × Tree)
  visited : List (Route × Tree)
  members : Members

namespace Visit

variable {v : Visit}

/-- The loop begins with a declaration. -/
def start (t : Tree) : Visit := ⟨[([], t)], [], .empty⟩

/-- The parts of a tree that the walk goes into, each with where it stands. -/
def parts (here : Route) (t : Tree) : List (Route × Tree) := t.openParts.zipIdx.map fun x => (here ++ [x.2], x.1)

/-- A tree is taken from the stack, what it adds to the members is added, and its parts are put on the stack in reverse,
unless it is sealed. -/
def visit (v : Visit) (here : Route) (t : Tree) : Visit where
  stack := v.stack.dropLast ++ (parts here t).reverse
  visited := v.visited ++ [(here, t)]
  members := v.members.append (.among [t])

/-- One round of the loop. -/
def round (v : Visit) : Visit :=
  match v.stack.getLast? with
  | none => v
  | some (here, t) => v.visit here t

/-- What is left to visit with that stack. -/
def pending (stack : List (Route × Tree)) : List (Route × Tree) := stack.reverse.flatMap fun x => x.2.walk x.1

/-- The loop is on the way of the recursive walk, and it has the members of what it has visited. -/
structure OnWalk (t : Tree) (v : Visit) : Prop where
  walk : v.visited ++ pending v.stack = t.walk []
  members : v.members = .among (v.visited.map Prod.snd)

theorem onWalk_start (t : Tree) : OnWalk t (start t) where
  walk := by simp [start, pending]
  members := rfl

theorem round_of_nil (h : v.stack = []) : v.round = v := by
  rw [round, h]
  rfl

theorem round_of_concat {below : List (Route × Tree)} {here : Route} (h : v.stack = below ++ [(here, t)]) :
    v.round = v.visit here t := by
  rw [round, h, List.getLast?_concat]

theorem walk_eq_parts (here : Route) (t : Tree) :
    t.walk here = (here, t) :: (parts here t).flatMap fun x => x.2.walk x.1 := by
  rw [Tree.walk_eq, parts, List.flatMap_map]
  rfl

/-- As the parts are put on the stack in reverse, they come next, and from left to right. -/
theorem pending_concat (below : List (Route × Tree)) (here : Route) (t : Tree) :
    pending (below ++ [(here, t)]) = (here, t) :: pending (below ++ (parts here t).reverse) := by
  rw [pending, pending, List.reverse_append, List.reverse_append, List.reverse_reverse, List.flatMap_append,
    List.flatMap_append, List.reverse_singleton, List.flatMap_singleton, walk_eq_parts, List.cons_append]

/-- What one round preserves. -/
theorem OnWalk.round {v : Visit} (h : OnWalk t v) : OnWalk t v.round := by
  rcases List.eq_nil_or_concat' v.stack with hstack | ⟨below, ⟨here, u⟩, hstack⟩
  · exact (round_of_nil hstack).symm ▸ h
  · rw [round_of_concat hstack]
    constructor
    · rw [visit, hstack, List.dropLast_concat, List.append_assoc, List.singleton_append, ← pending_concat, ← hstack]
      exact h.walk
    · rw [visit, h.members, List.map_append, Members.among_append]
      rfl

/-- The loop after that many rounds. -/
def run (t : Tree) (n : ℕ) : Visit := round^[n] (start t)

theorem run_succ (t : Tree) (n : ℕ) : run t (n + 1) = (run t n).round := Function.iterate_succ_apply' round n (start t)

theorem onWalk_run (t : Tree) (n : ℕ) : OnWalk t (run t n) := by
  induction n with
  | zero => exact onWalk_start t
  | succ n ih => exact run_succ t n ▸ ih.round

theorem pending_eq_nil {stack : List (Route × Tree)} : pending stack = [] ↔ stack = [] := by
  rcases List.eq_nil_or_concat' stack with rfl | ⟨below, ⟨here, u⟩, rfl⟩
  · exact iff_of_true rfl rfl
  · simp [pending_concat]

theorem pending_round (v : Visit) : pending v.round.stack = (pending v.stack).tail := by
  rcases List.eq_nil_or_concat' v.stack with hstack | ⟨below, ⟨here, u⟩, hstack⟩
  · rw [round_of_nil hstack, hstack]
    rfl
  · rw [round_of_concat hstack, visit, hstack, List.dropLast_concat, pending_concat, List.tail_cons]

/-- Each round takes from what is left what comes first. -/
theorem pending_run (t : Tree) (n : ℕ) : pending (run t n).stack = (t.walk []).drop n := by
  induction n with
  | zero => simp [run, start, pending]
  | succ n ih => rw [run_succ, pending_round, ih, List.tail_drop]

/-- As many trees have been visited as there have been rounds, until the walk is over. -/
theorem visited_run (t : Tree) (n : ℕ) : (run t n).visited = (t.walk []).take n := by
  have hwalk := (onWalk_run t n).walk
  rw [pending_run] at hwalk
  exact List.append_cancel_right (hwalk.trans (List.take_append_drop n _).symm)

theorem stack_run (t : Tree) (n : ℕ) : (run t n).stack = [] ↔ (t.walk []).length ≤ n := by
  rw [← pending_eq_nil, pending_run, List.drop_eq_nil_iff]

theorem members_run {n : ℕ} (h : (run t n).stack = []) : (run t n).members = collect [t] := by
  rw [(onWalk_run t n).members, visited_run, List.take_of_length_le ((stack_run t n).mp h), collect_eq,
    List.flatMap_singleton, Tree.visits]

end Visit

/-- What is found in some elements comes from those in which something is found. -/
theorem map_some_filterMap {α β : Type*} {p : α → Prop} [DecidablePred p] {f g : α → Option β} (l : List α)
    (hp : ∀ a, (f a).isSome = true ↔ p a) (hfg : ∀ a, p a → f a = g a) :
    (l.filterMap f).map some = (l.filter p).map g := by
  induction l with
  | nil => rfl
  | cons a l ih =>
    by_cases ha : p a
    · obtain ⟨b, hb⟩ := Option.isSome_iff_exists.mp ((hp a).mpr ha)
      rw [List.filterMap_cons_some hb, List.filter_cons_of_pos (by simpa using ha), List.map_cons, List.map_cons, ih,
        ← hfg a ha, hb]
    · have hnone : f a = none := Option.not_isSome_iff_eq_none.mp fun h => ha ((hp a).mp h)
      rw [List.filterMap_cons_none hnone, List.filter_cons_of_neg (by simpa using ha), ih]

/-- The loop visits, in as many rounds as the walk meets trees, just these, in the order of the walk, and each once. Then its
stack is empty for the first time, and it has collected the functions that others can call and the state variables in that
order. The walk meets a tree if nothing around it is sealed. -/
theorem collect_walk (t : Tree) :
    (∀ n, (Visit.run t n).visited = (t.walk []).take n ∧ ((Visit.run t n).stack = [] ↔ (t.walk []).length ≤ n)) ∧
      (Visit.run t (t.walk []).length).members = collect [t] ∧
      (collect [t]).functions.map some = (t.visits.filter Tree.IsExposedFunction).map signature? ∧
      (collect [t]).stateVariables.map some = (t.visits.filter Tree.IsNamedVariable).map stateVariable? ∧
      (t.walk []).Pairwise (fun x y => x.1 < y.1) ∧
      ∀ route u, (route, u) ∈ t.walk [] ↔ t.Reachable route u := by
  have hcollect : collect [t] = .among t.visits := by rw [collect_eq, List.flatMap_singleton]
  refine ⟨fun n => ⟨Visit.visited_run t n, Visit.stack_run t n⟩, Visit.members_run ((Visit.stack_run t _).mpr le_rfl),
    ?functions, ?stateVariables, t.pairwise_walk [], fun route u => Tree.mem_walk route [] t⟩
  case functions =>
    rw [hcollect]
    exact map_some_filterMap _ (fun u => isSome_functionOf?) fun u hu => if_pos hu.1
  case stateVariables =>
    rw [hcollect]
    exact map_some_filterMap _ (fun u => isSome_variableOf?) fun u hu => if_pos hu.1

end ContractMigration.Solidity
