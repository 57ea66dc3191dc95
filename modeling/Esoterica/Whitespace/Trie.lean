import Esoterica.Error
import Esoterica.Whitespace.Op

/-!
The trie of the spellings. Its nodes lie in an array, and a node has the indices of those to which the
symbols lead. An instruction is read by walking from the root to the first node that ends a spelling.
-/

namespace Esoterica.Whitespace

/-- A symbol with its position in the source. -/
abbrev Token := Symbol × Nat

def loadFault (error : Error) : Error :=
  error.during "trie::preprocess"

namespace Trie

/-- Where each symbol leads, and the instruction that is spelled on the way to the node. -/
structure Node where
  children : Vector (Option Nat) 3 := .replicate 3 none
  form : Option Form := none

namespace Node

def child? (node : Node) (symbol : Symbol) : Option Nat :=
  node.children[symbol.index]

def link (node : Node) (symbol : Symbol) (child : Nat) : Node :=
  { node with children := node.children.set symbol.index (some child) }

theorem child?_new (symbol : Symbol) : ({} : Node).child? symbol = none := by
  cases symbol <;> rfl

theorem child?_link (node : Node) (symbol other : Symbol) (child : Nat) :
    (node.link symbol child).child? other =
      if other = symbol then some child else node.child? other := by
  simp only [child?, link, Fin.getElem_fin, Vector.getElem_set]
  cases symbol <;> cases other <;> rfl

end Node

end Trie

/-- The first node is the root, and every symbol leads to a node that is there. -/
structure Trie where
  nodes : Array Trie.Node
  rooted : 0 < nodes.size
  linked : ∀ node ∈ nodes, ∀ symbol child, node.child? symbol = some child → child < nodes.size

namespace Trie

def empty : Trie where
  nodes := #[{}]
  rooted := Nat.one_pos
  linked := by
    intro node member symbol child found
    have only : node = {} := List.mem_singleton.1 (List.mem_toArray.1 member)
    rw [only, Node.child?_new] at found
    cases found

/-- A node by its index. -/
abbrev Place (trie : Trie) : Type :=
  Fin trie.nodes.size

def root (trie : Trie) : trie.Place :=
  ⟨0, trie.rooted⟩

/-- Where a symbol leads. -/
def next? (trie : Trie) (place : trie.Place) (symbol : Symbol) : Option trie.Place :=
  (trie.nodes[place].child? symbol).pmap Fin.mk
    (trie.linked trie.nodes[place] (Array.getElem_mem _) symbol)

/-- Adds a node to which a symbol leads. -/
def link (trie : Trie) (place : trie.Place) (symbol : Symbol) : Trie where
  nodes := (trie.nodes.set place (trie.nodes[place].link symbol trie.nodes.size)).push {}
  rooted := by simp
  linked := by
    intro node member other child found
    rw [Array.size_push, Array.size_set]
    have kept {node : Node} (member : node ∈ trie.nodes) (found : node.child? other = some child) :
        child < trie.nodes.size + 1 :=
      Nat.lt_succ_of_lt (trie.linked node member other child found)
    rcases Array.mem_push.1 member with member | rfl
    · rcases Array.mem_or_eq_of_mem_set member with member | rfl
      · exact kept member found
      · rw [Node.child?_link] at found
        split at found
        · cases found
          exact Nat.lt_succ_self _
        · exact kept (Array.getElem_mem _) found
    · rw [Node.child?_new] at found
      cases found

/-- The node that has been added. -/
def added (trie : Trie) (place : trie.Place) (symbol : Symbol) : (trie.link place symbol).Place :=
  ⟨trie.nodes.size, by simp [link]⟩

/-- Has a spelling end at a node. -/
def finish (trie : Trie) (place : trie.Place) (form : Form) : Trie where
  nodes := trie.nodes.set place { trie.nodes[place] with form := some form }
  rooted := by simp [trie.rooted]
  linked := by
    intro node member symbol child found
    rw [Array.size_set]
    rcases Array.mem_or_eq_of_mem_set member with member | rfl
    · exact trie.linked node member symbol child found
    · exact trie.linked trie.nodes[place] (Array.getElem_mem _) symbol child found

/-- Adds what is left of a spelling from a node on. -/
def insert (trie : Trie) (place : trie.Place) (form : Form) : List Symbol → Trie
  | [] => trie.finish place form
  | symbol :: rest =>
    match trie.next? place symbol with
    | some child => trie.insert child form rest
    | none => (trie.link place symbol).insert (trie.added place symbol) form rest

def ofSpellings (spellings : List Spelling) : Trie :=
  spellings.foldl (fun trie spelling => trie.insert trie.root spelling.form spelling.symbols) empty

/-- Reads the spelling of an instruction that starts at a position, from a node on. -/
def walk (trie : Trie) (start : Nat) (place : trie.Place) :
    List Token → Except Error (Form × List Token)
  | [] => .error (loadFault (.invalidInstruction start "program ends inside an instruction"))
  | (symbol, position) :: rest =>
    match trie.next? place symbol with
    | none =>
      .error (loadFault (.invalidInstruction position
        s!"no instruction continues with {symbol.letter}"))
    | some child =>
      match trie.nodes[child].form with
      | some form => .ok (form, rest)
      | none => trie.walk start child rest

theorem walk_shorter {trie : Trie} {start : Nat} {place : trie.Place} {tokens rest : List Token}
    {form : Form} (read : trie.walk start place tokens = .ok (form, rest)) :
    rest.length < tokens.length := by
  induction tokens generalizing place with
  | nil => simp [walk] at read
  | cons token tokens inductionHypothesis =>
      rw [walk] at read
      split at read
      · simp at read
      · split at read
        · simp only [Except.ok.injEq, Prod.mk.injEq] at read
          simp [read.2]
        · have := inductionHypothesis read
          simp only [List.length_cons]
          omega

end Trie

/-- The trie of all instructions. -/
@[irreducible]
def commands : Trie :=
  .ofSpellings spellings

end Esoterica.Whitespace
