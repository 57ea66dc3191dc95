import Esoterica.Whitespace.Trie
import Mathlib.Data.List.Induction

/-!
The trie finds what a search finds among the spellings. A node is known by the one path that leads to it,
so a spelling that is added changes the trie along its own path only. Walking goes through the prefixes
of the tokens, while the search keeps the spellings that go on with them.
-/

namespace Esoterica.Whitespace

/-- The spellings that go on with a symbol, without it. -/
def continuing (symbol : Symbol) (candidates : List Spelling) : List Spelling :=
  candidates.filterMap fun candidate =>
    match candidate.symbols with
    | first :: rest => if first = symbol then some ⟨rest, candidate.form⟩ else none
    | [] => none

/-- Searches the spelling of an instruction that starts at a position among candidates. -/
def readForm (start : Nat) (candidates : List Spelling) :
    List Token → Except Error (Form × List Token)
  | [] =>
    .error (loadFault (.invalidInstruction start "program ends inside an instruction"))
  | (symbol, position) :: rest =>
    match continuing symbol candidates with
    | [] =>
      .error (loadFault (.invalidInstruction position
        s!"no instruction continues with {symbol.letter}"))
    | first :: more =>
      match (first :: more).find? (·.symbols.isEmpty) with
      | some spelling => .ok (spelling.form, rest)
      | none => readForm start (first :: more) rest

theorem mem_continuing_iff {symbol : Symbol} {candidates : List Spelling} {left : Spelling} :
    left ∈ continuing symbol candidates ↔ ⟨symbol :: left.symbols, left.form⟩ ∈ candidates := by
  simp only [continuing, List.mem_filterMap]
  constructor
  · rintro ⟨⟨_ | ⟨first, rest⟩, form⟩, member, matched⟩
    · simp at matched
    · simp only [Option.ite_none_right_eq_some, Option.some.injEq] at matched
      obtain ⟨rfl, rfl⟩ := matched
      exact member
  · intro member
    exact ⟨_, member, by simp⟩

/-- No spelling is empty or continues another one. -/
structure PrefixFree (candidates : List Spelling) : Prop where
  nonempty : ∀ candidate ∈ candidates, candidate.symbols ≠ []
  unique : ∀ first ∈ candidates, ∀ second ∈ candidates,
    first.symbols <+: second.symbols → first = second

theorem spellings_prefixFree : PrefixFree spellings := by
  have apart : spellings.Pairwise fun first second =>
      ¬ first.symbols <+: second.symbols ∧ ¬ second.symbols <+: first.symbols := by decide
  refine ⟨by decide, ?_⟩
  intro first firstMember second secondMember continued
  obtain ⟨i, iWithin, rfl⟩ := List.getElem_of_mem firstMember
  obtain ⟨j, jWithin, rfl⟩ := List.getElem_of_mem secondMember
  rw [List.pairwise_iff_getElem] at apart
  rcases Nat.lt_trichotomy i j with before | rfl | behind
  · exact absurd continued (apart i j iWithin jWithin before).1
  · rfl
  · exact absurd continued (apart j i jWithin iWithin behind).2

namespace Trie

/-- The index to which a symbol leads. -/
def childAt? (trie : Trie) (index : Nat) (symbol : Symbol) : Option Nat :=
  trie.nodes[index]?.bind fun node => node.child? symbol

/-- The instruction whose spelling ends at an index. -/
def formAt? (trie : Trie) (index : Nat) : Option Form :=
  trie.nodes[index]?.bind fun node => node.form

/-- The index to which symbols lead from the root. -/
def reach? (trie : Trie) (path : List Symbol) : Option Nat :=
  path.foldlM trie.childAt? 0

/-- The instruction that symbols spell. -/
def spelled? (trie : Trie) (path : List Symbol) : Option Form :=
  (trie.reach? path).bind trie.formAt?

/-- No two paths lead to one node. -/
def Apart (trie : Trie) : Prop :=
  ∀ first second index, trie.reach? first = some index → trie.reach? second = some index →
    first = second

variable {trie : Trie} {place : trie.Place} {symbol : Symbol} {path : List Symbol} {form : Form}

theorem map_val_next? (trie : Trie) (place : trie.Place) (symbol : Symbol) :
    (trie.next? place symbol).map Fin.val = trie.childAt? place symbol := by
  simp [next?, childAt?, Option.map_pmap]

section Changes

variable (trie : Trie) (place : trie.Place)

/-- At an index lies the new node, or the one that leads to it, or what lay there before. -/
theorem link_cases (symbol : Symbol) (index : Nat) :
    let before := trie.nodes[index]?
    let after := (trie.link place symbol).nodes[index]?
    (index = trie.nodes.size ∧ before = none ∧ after = some {}) ∨
      (index = place.val ∧
        ∃ node, before = some node ∧ after = some (node.link symbol trie.nodes.size)) ∨
      (index ≠ place.val ∧ after = before) := by
  have within := place.isLt
  simp only [link, Array.getElem?_push, Array.size_set, Array.getElem?_set]
  by_cases new : index = trie.nodes.size
  · exact .inl ⟨new, Array.getElem?_eq_none (Nat.le_of_eq new.symm), if_pos new⟩
  · rw [if_neg new]
    by_cases here : index = place
    · refine .inr (.inl ⟨here, trie.nodes[place], ?_, if_pos here.symm⟩)
      rw [here]
      exact Array.getElem?_eq_getElem within
    · exact .inr (.inr ⟨here, if_neg (Ne.symm here)⟩)

theorem childAt?_link (symbol : Symbol) (index : Nat) (other : Symbol) :
    (trie.link place symbol).childAt? index other =
      if index = place ∧ other = symbol then some trie.nodes.size else trie.childAt? index other := by
  have within := place.isLt
  rcases link_cases trie place symbol index with
    ⟨new, before, after⟩ | ⟨here, node, before, after⟩ | ⟨elsewhere, same⟩
  · have apart : ¬ (index = place ∧ other = symbol) := by omega
    rw [childAt?, childAt?, before, after, if_neg apart]
    exact Node.child?_new other
  · rw [childAt?, childAt?, before, after, Option.bind_some, Option.bind_some, Node.child?_link]
    simp only [here, true_and]
  · rw [childAt?, childAt?, same, if_neg (fun both => elsewhere both.1)]

theorem formAt?_link (symbol : Symbol) (index : Nat) :
    (trie.link place symbol).formAt? index = trie.formAt? index := by
  rcases link_cases trie place symbol index with
    ⟨_, before, after⟩ | ⟨_, node, before, after⟩ | ⟨_, same⟩
  · rw [formAt?, formAt?, before, after]
    rfl
  · rw [formAt?, formAt?, before, after]
    rfl
  · rw [formAt?, formAt?, same]

theorem childAt?_finish (form : Form) (index : Nat) (symbol : Symbol) :
    (trie.finish place form).childAt? index symbol = trie.childAt? index symbol := by
  simp only [childAt?, finish, Array.getElem?_set]
  by_cases here : place.val = index
  · simp [← here, Node.child?]
  · rw [if_neg here]

theorem formAt?_finish (form : Form) (index : Nat) :
    (trie.finish place form).formAt? index =
      if index = place then some form else trie.formAt? index := by
  simp only [formAt?, finish, Array.getElem?_set]
  by_cases here : place.val = index
  · simp [← here]
  · rw [if_neg here, if_neg (Ne.symm here)]

end Changes

theorem reach?_append_singleton (trie : Trie) (path : List Symbol) (symbol : Symbol) :
    trie.reach? (path ++ [symbol]) =
      (trie.reach? path).bind fun index => trie.childAt? index symbol := by
  simp only [reach?, List.foldlM_append, List.foldlM_cons, List.foldlM_nil, bind_pure]
  rfl

theorem lt_of_reach? {index : Nat} (reached : trie.reach? path = some index) :
    index < trie.nodes.size := by
  cases path using List.reverseRecOn with
  | nil =>
      cases reached
      exact trie.rooted
  | append_singleton path symbol =>
      rw [reach?_append_singleton] at reached
      obtain ⟨before, _, child⟩ := Option.bind_eq_some_iff.1 reached
      obtain ⟨node, found, child⟩ := Option.bind_eq_some_iff.1 child
      exact trie.linked node (Array.mem_of_getElem? found) symbol index child

/-- Whoever reaches a node has passed those on the way to it. -/
theorem isSome_reach?_of_prefix {front : List Symbol} (begins : front <+: path)
    (reached : (trie.reach? path).isSome) : (trie.reach? front).isSome := by
  obtain ⟨rest, rfl⟩ := begins
  obtain ⟨index, reached⟩ := Option.isSome_iff_exists.1 reached
  rw [reach?, List.foldlM_append] at reached
  obtain ⟨before, passed, _⟩ := Option.bind_eq_some_iff.1 reached
  exact Option.isSome_of_eq_some passed

section Insertion

variable (apart : trie.Apart) (here : trie.reach? path = some place.val)

include apart here

/-- A new node is reached by one path, and all the others lead where they led. -/
theorem reach?_link (new : trie.childAt? place symbol = none) (other : List Symbol) :
    (trie.link place symbol).reach? other =
      if other = path ++ [symbol] then some trie.nodes.size else trie.reach? other := by
  have unreached : trie.reach? (path ++ [symbol]) = none := by
    rw [reach?_append_singleton, here]
    exact new
  induction other using List.reverseRecOn with
  | nil => simp [reach?]
  | append_singleton front last inductionHypothesis =>
      rw [reach?_append_singleton, inductionHypothesis, reach?_append_singleton]
      by_cases through : front = path ++ [symbol]
      · -- The new node leads nowhere.
        have longer : front ++ [last] ≠ path ++ [symbol] := by
          rw [through]
          intro same
          simpa using congrArg List.length same
        have outside : trie.childAt? trie.nodes.size last = none := by simp [childAt?]
        have elsewhere := Nat.ne_of_gt place.isLt
        rw [if_pos through, if_neg longer, through, unreached, Option.bind_some, childAt?_link,
          if_neg (fun same => elsewhere same.1), outside]
        rfl
      · rw [if_neg through]
        cases reached : trie.reach? front with
        | none =>
            have aside : front ++ [last] ≠ path ++ [symbol] := by
              intro same
              rw [(List.append_inj' same rfl).1, here] at reached
              cases reached
            rw [if_neg aside]
            rfl
        | some index =>
            -- Only this path leads to the node that was changed.
            have same : index = place ∧ last = symbol ↔ front ++ [last] = path ++ [symbol] := by
              constructor
              · rintro ⟨rfl, rfl⟩
                rw [apart front path _ reached here]
              · intro same
                obtain ⟨rfl, lasts⟩ := List.append_inj' same rfl
                rw [here] at reached
                exact ⟨(Option.some.inj reached).symm, List.singleton_inj.1 lasts⟩
            simp only [Option.bind_some, childAt?_link, same]

theorem apart_link (new : trie.childAt? place symbol = none) : (trie.link place symbol).Apart := by
  intro first second index firstReached secondReached
  rw [reach?_link apart here new] at firstReached secondReached
  split at firstReached <;> rename_i firstNew <;> split at secondReached <;> rename_i secondNew
  · rw [firstNew, secondNew]
  · cases firstReached
    exact absurd (lt_of_reach? secondReached) (Nat.lt_irrefl _)
  · cases secondReached
    exact absurd (lt_of_reach? firstReached) (Nat.lt_irrefl _)
  · exact apart first second index firstReached secondReached

theorem spelled?_link (new : trie.childAt? place symbol = none) (other : List Symbol) :
    (trie.link place symbol).spelled? other = trie.spelled? other := by
  have forms : (trie.link place symbol).formAt? = trie.formAt? := funext (formAt?_link trie place symbol)
  rw [spelled?, spelled?, forms, reach?_link apart here new]
  split
  · rename_i same
    rw [same, reach?_append_singleton, here]
    simp [formAt?, new]
  · rfl

omit apart here in
theorem reach?_finish (form : Form) (other : List Symbol) :
    (trie.finish place form).reach? other = trie.reach? other := by
  have children : (trie.finish place form).childAt? = trie.childAt? :=
    funext₂ (childAt?_finish trie place form)
  rw [reach?, reach?, children]

theorem spelled?_finish (form : Form) (other : List Symbol) :
    (trie.finish place form).spelled? other =
      if other = path then some form else trie.spelled? other := by
  rw [spelled?, spelled?, reach?_finish]
  split
  · rename_i same
    rw [same, here, Option.bind_some, formAt?_finish, if_pos rfl]
  · rename_i aside
    cases reached : trie.reach? other with
    | none => rfl
    | some index =>
        have elsewhere : index ≠ place := by
          rintro rfl
          exact aside (apart other path _ reached here)
        rw [Option.bind_some, formAt?_finish, if_neg elsewhere]
        rfl

end Insertion

/-- What a trie gains by a spelling: the nodes on its path, and the instruction at the end of it. -/
structure Gains (before after : Trie) (path : List Symbol) (form : Form) : Prop where
  apart : after.Apart
  reaches : ∀ other, (after.reach? other).isSome ↔ (before.reach? other).isSome ∨ other <+: path
  spells : ∀ other, after.spelled? other = if other = path then some form else before.spelled? other

theorem gains_insert (apart : trie.Apart) (here : trie.reach? path = some place.val) (form : Form)
    (symbols : List Symbol) : Gains trie (trie.insert place form symbols) (path ++ symbols) form := by
  induction symbols generalizing trie path with
  | nil =>
      rw [List.append_nil, insert]
      refine ⟨?_, ?_, spelled?_finish apart here form⟩
      · intro first second index firstReached secondReached
        rw [reach?_finish] at firstReached secondReached
        exact apart first second index firstReached secondReached
      · intro other
        rw [reach?_finish, iff_self_or]
        intro begins
        exact isSome_reach?_of_prefix begins (Option.isSome_of_eq_some here)
  | cons symbol rest inductionHypothesis =>
      have onward (following : Nat) (child : trie.childAt? place symbol = some following) :
          trie.reach? (path ++ [symbol]) = some following := by
        rw [reach?_append_singleton, here]
        exact child
      have step := map_val_next? trie place symbol
      rw [insert, ← List.singleton_append, ← List.append_assoc]
      split
      · rename_i child found
        rw [found] at step
        exact inductionHypothesis apart (onward child step.symm)
      · rename_i missing
        rw [missing] at step
        have new : trie.childAt? place symbol = none := step.symm
        have reaches := reach?_link apart here new
        have reached : (trie.link place symbol).reach? (path ++ [symbol]) =
            some (trie.added place symbol).val := by
          rw [reaches, if_pos rfl]
          rfl
        have gains := inductionHypothesis (apart_link apart here new) reached
        refine ⟨gains.apart, ?_, ?_⟩
        · intro other
          rw [gains.reaches, reaches]
          split
          · rename_i same
            rw [same]
            exact iff_of_true (.inl rfl) (.inr (List.prefix_append _ _))
          · rfl
        · intro other
          rw [gains.spells, spelled?_link apart here new]

/-- A trie that has been made of spellings. -/
structure Holds (trie : Trie) (spellings : List Spelling) : Prop where
  apart : trie.Apart
  reaches : ∀ path, (trie.reach? path).isSome ↔ path = [] ∨ ∃ known ∈ spellings, path <+: known.symbols
  sound : ∀ path form, trie.spelled? path = some form → ⟨path, form⟩ ∈ spellings
  complete : ∀ known ∈ spellings, (trie.spelled? known.symbols).isSome

theorem holds_empty : empty.Holds [] := by
  have nowhere (symbol : Symbol) : empty.childAt? 0 symbol = none := Node.child?_new symbol
  have reached (path : List Symbol) : empty.reach? path = if path = [] then some 0 else none := by
    cases path with
    | nil => rfl
    | cons symbol rest =>
        rw [reach?, List.foldlM_cons, nowhere]
        rfl
  have unspelled (path : List Symbol) : empty.spelled? path = none := by
    rw [spelled?, reached]
    split <;> rfl
  refine ⟨?_, ?_, ?_, by simp⟩
  · intro first second index firstReached secondReached
    rw [reached, Option.ite_none_right_eq_some] at firstReached secondReached
    rw [firstReached.1, secondReached.1]
  · intro path
    rw [reached]
    by_cases nothing : path = [] <;> simp [nothing]
  · intro path form spelled
    rw [unspelled] at spelled
    cases spelled

theorem Holds.insert {spellings : List Spelling} (holds : trie.Holds spellings) (spelling : Spelling) :
    (trie.insert trie.root spelling.form spelling.symbols).Holds (spellings ++ [spelling]) := by
  have rooted : trie.reach? [] = some trie.root.val := rfl
  obtain ⟨apart, reaches, spells⟩ := gains_insert holds.apart rooted spelling.form spelling.symbols
  rw [List.nil_append] at reaches spells
  refine ⟨apart, ?_, ?_, ?_⟩
  · intro path
    rw [reaches, holds.reaches, or_assoc]
    simp [or_and_right, exists_or]
  · intro path form found
    rw [spells] at found
    rw [List.mem_append]
    split at found
    · rename_i same
      cases found
      rw [same]
      exact .inr (List.mem_singleton_self _)
    · exact .inl (holds.sound path form found)
  · intro known member
    rw [spells]
    split
    · rfl
    · rename_i aside
      rcases List.mem_append.1 member with member | last
      · exact holds.complete known member
      · rw [List.mem_singleton.1 last] at aside
        exact absurd rfl aside

theorem holds_ofSpellings (spellings : List Spelling) : (ofSpellings spellings).Holds spellings := by
  induction spellings using List.reverseRecOn with
  | nil => exact holds_empty
  | append_singleton spellings spelling inductionHypothesis =>
      rw [ofSpellings, List.foldl_append]
      exact inductionHypothesis.insert spelling

section Walking

variable {spellings : List Spelling}

/-- The candidates are the spellings that begin with a path, without it. -/
def Follows (spellings : List Spelling) (path : List Symbol) (candidates : List Spelling) : Prop :=
  ∀ left : Spelling, left ∈ candidates ↔ ⟨path ++ left.symbols, left.form⟩ ∈ spellings

theorem Follows.continuing {candidates : List Spelling} (follows : Follows spellings path candidates)
    (symbol : Symbol) : Follows spellings (path ++ [symbol]) (continuing symbol candidates) := by
  intro left
  rw [mem_continuing_iff, follows, List.append_assoc, List.singleton_append]

/-- A symbol leads on exactly if a candidate goes on with it. -/
theorem Holds.reaches_iff (holds : trie.Holds spellings) {candidates : List Spelling}
    (nonempty : path ≠ []) (follows : Follows spellings path candidates) :
    (trie.reach? path).isSome ↔ candidates ≠ [] := by
  rw [holds.reaches, or_iff_right nonempty]
  constructor
  · rintro ⟨⟨_, form⟩, member, left, rfl⟩
    exact List.ne_nil_of_mem ((follows ⟨left, form⟩).2 member)
  · intro some
    obtain ⟨left, member⟩ := List.exists_mem_of_ne_nil candidates some
    exact ⟨_, (follows left).1 member, List.prefix_append _ _⟩

/-- A node ends the spelling that a search among the candidates finds. -/
theorem Holds.spelled?_eq (holds : trie.Holds spellings) (free : PrefixFree spellings)
    {candidates : List Spelling} (follows : Follows spellings path candidates) :
    trie.spelled? path = (candidates.find? (·.symbols.isEmpty)).map (·.form) := by
  cases search : candidates.find? (·.symbols.isEmpty) with
  | none =>
      rw [Option.map_none, ← Option.not_isSome_iff_eq_none, Option.isSome_iff_exists]
      rintro ⟨form, spelled⟩
      have member := holds.sound path form spelled
      have candidate : ⟨[], form⟩ ∈ candidates := by
        rw [follows, List.append_nil]
        exact member
      exact List.find?_eq_none.1 search _ candidate rfl
  | some found =>
      have ends : found.symbols = [] := by simpa using List.find?_some search
      have member := (follows found).1 (List.mem_of_find?_eq_some search)
      rw [ends, List.append_nil] at member
      obtain ⟨form, spelled⟩ := Option.isSome_iff_exists.1 (holds.complete _ member)
      have same := free.unique _ (holds.sound path form spelled) _ member List.prefix_rfl
      rw [spelled, Option.map_some, ← congrArg Spelling.form same]

/-- Walking on from a node is searching on among the candidates. -/
theorem Holds.walk_eq (holds : trie.Holds spellings) (free : PrefixFree spellings) (start : Nat)
    {candidates : List Spelling} (here : trie.reach? path = some place.val)
    (follows : Follows spellings path candidates) (tokens : List Token) :
    trie.walk start place tokens = readForm start candidates tokens := by
  induction tokens generalizing place path candidates with
  | nil => rfl
  | cons token tokens inductionHypothesis =>
      obtain ⟨symbol, position⟩ := token
      have onward := follows.continuing symbol
      have leads := holds.reaches_iff (by simp) onward
      have ends := holds.spelled?_eq free onward
      have reached : trie.reach? (path ++ [symbol]) = (trie.next? place symbol).map Fin.val := by
        rw [map_val_next?, reach?_append_singleton, here]
        rfl
      rw [walk, readForm]
      cases step : trie.next? place symbol with
      | none =>
          rw [reached, step] at leads
          have nothing : Whitespace.continuing symbol candidates = [] := by
            simpa using leads
          rw [nothing]
      | some child =>
          rw [step] at reached
          rw [reached] at leads
          obtain ⟨first, more, some⟩ := List.exists_cons_of_ne_nil (leads.1 rfl)
          have form : trie.spelled? (path ++ [symbol]) = trie.nodes[child].form := by
            rw [spelled?, reached]
            simp [formAt?]
          rw [form, some] at ends
          rw [some] at onward
          simp only [some, ends]
          cases (first :: more).find? (·.symbols.isEmpty) with
          | none => exact inductionHypothesis reached onward
          | some found => rfl

/-- Walking the trie of spellings that do not continue each other finds what a search among them
finds. -/
theorem walk_eq_readForm (free : PrefixFree spellings) (start : Nat) (tokens : List Token) :
    (ofSpellings spellings).walk start (ofSpellings spellings).root tokens =
      readForm start spellings tokens := by
  have follows : Follows spellings [] spellings := fun _ => Iff.rfl
  exact (holds_ofSpellings spellings).walk_eq free start rfl follows tokens

end Walking

end Trie

theorem walk_commands (start : Nat) (tokens : List Token) :
    commands.walk start commands.root tokens = readForm start spellings tokens := by
  unfold commands
  exact Trie.walk_eq_readForm spellings_prefixFree start tokens

end Esoterica.Whitespace
