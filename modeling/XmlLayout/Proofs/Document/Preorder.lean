import XmlLayout.Document.Node

/-!
# Document order

The nodes of a tree in the order in which a document shows them, an element in front of its
children, and the ways from the root of a tree to its nodes. A path says which node it leads to
(`Path.plug`) and which nodes come earlier (`Path.earlier`).

* `Path.preorder_plug`: the earlier nodes are those in front of the end of the path.
* `Path.exists_first`: if some node has a property then there is a first one, and a path to it.
-/

namespace XmlLayout.Document

namespace Node

mutual

/-- The nodes of a tree in document order, each with its depth; the root is at `depth`. -/
def preorder (depth : Nat) : Node → List (Nat × Node)
  | foreign value => [(depth, foreign value)]
  | element tag children => (depth, element tag children) :: preorderAll (depth + 1) children

def preorderAll (depth : Nat) : List Node → List (Nat × Node)
  | [] => []
  | node :: rest => node.preorder depth ++ preorderAll depth rest

end

theorem preorderAll_append (depth : Nat) (nodes others : List Node) :
    preorderAll depth (nodes ++ others) = preorderAll depth nodes ++ preorderAll depth others := by
  induction nodes with
  | nil => rfl
  | cons node rest ih => rw [List.cons_append, preorderAll, preorderAll, ih, List.append_assoc]

/-- A node is in front of all nodes below it. -/
theorem exists_cons_of_preorder (depth : Nat) (node : Node) :
    ∃ below, node.preorder depth = (depth, node) :: below := by
  cases node with
  | foreign value => exact ⟨[], rfl⟩
  | element tag children => exact ⟨preorderAll (depth + 1) children, rfl⟩

end Node

/-- The way from the root of a tree to one of its nodes. It goes from element to element; to its
sides are the other children. -/
inductive Path where
  | root
  | into (tag : Tag) (before : List Node) (rest : Path) (after : List Node)

namespace Path

/-- The tree that has a node at the end of a path. -/
def plug (node : Node) : Path → Node
  | root => node
  | into tag before rest after => .element tag (before ++ rest.plug node :: after)

/-- The tags on a path, each with the children in front of the way. -/
def passed : Path → List (Tag × List Node)
  | root => []
  | into tag before rest _ => (tag, before) :: rest.passed

/-- The number of ancestors of the node at the end. -/
def depth (path : Path) : Nat :=
  path.passed.length

/-- The nodes that come earlier than the node at the end, in document order. -/
def earlier (node : Node) (depth : Nat) : Path → List (Nat × Node)
  | root => []
  | into tag before rest after =>
    (depth, plug node (into tag before rest after)) ::
      (Node.preorderAll (depth + 1) before ++ rest.earlier node (depth + 1))

theorem depth_into (tag : Tag) (before : List Node) (rest : Path) (after : List Node) :
    (into tag before rest after).depth = rest.depth + 1 :=
  rfl

theorem preorder_plug (path : Path) (node : Node) (depth : Nat) :
    ∃ later, (path.plug node).preorder depth =
      path.earlier node depth ++ (depth + path.depth, node) :: later := by
  induction path generalizing depth with
  | root => exact Node.exists_cons_of_preorder depth node
  | into tag before rest after ih =>
    obtain ⟨later, hRest⟩ := ih (depth + 1)
    refine ⟨later ++ Node.preorderAll (depth + 1) after, ?_⟩
    have hDepth : depth + 1 + rest.depth = depth + (rest.depth + 1) := by omega
    rw [plug, Node.preorder, Node.preorderAll_append, Node.preorderAll, hRest, earlier, plug,
      depth_into, hDepth]
    simp only [List.append_assoc, List.cons_append]

mutual

theorem exists_first {P : Nat × Node → Prop} {depth : Nat} {tree : Node}
    (h : ∃ entry ∈ tree.preorder depth, P entry) :
    ∃ (path : Path) (node : Node), tree = path.plug node ∧ P (depth + path.depth, node) ∧
      ∀ entry ∈ path.earlier node depth, ¬P entry := by
  -- The root first, then the first of its children below which there is such a node.
  by_cases hHere : P (depth, tree)
  · exact ⟨root, tree, rfl, hHere, fun entry hEntry => absurd hEntry List.not_mem_nil⟩
  · cases tree with
    | foreign value =>
      obtain ⟨entry, hEntry, hP⟩ := h
      rw [Node.preorder, List.mem_singleton] at hEntry
      exact absurd (hEntry ▸ hP) hHere
    | element tag children =>
      have hBelow : ∃ entry ∈ Node.preorderAll (depth + 1) children, P entry := by
        obtain ⟨entry, hEntry, hP⟩ := h
        rw [Node.preorder] at hEntry
        rcases List.mem_cons.mp hEntry with rfl | hEntry
        · exact absurd hP hHere
        · exact ⟨entry, hEntry, hP⟩
      obtain ⟨before, path, node, after, rfl, hP, hBefore, hEarlier⟩ := exists_firstAll hBelow
      refine ⟨into tag before path after, node, rfl, ?_, ?_⟩
      · have hDepth : depth + (path.depth + 1) = depth + 1 + path.depth := by omega
        rw [depth_into, hDepth]
        exact hP
      · intro entry hEntry
        rcases List.mem_cons.mp hEntry with rfl | hEntry
        · exact hHere
        · rcases List.mem_append.mp hEntry with hEntry | hEntry
          · exact hBefore entry hEntry
          · exact hEarlier entry hEntry

theorem exists_firstAll {P : Nat × Node → Prop} {depth : Nat} {nodes : List Node}
    (h : ∃ entry ∈ Node.preorderAll depth nodes, P entry) :
    ∃ (before : List Node) (path : Path) (node : Node) (after : List Node),
      nodes = before ++ path.plug node :: after ∧ P (depth + path.depth, node) ∧
        (∀ entry ∈ Node.preorderAll depth before, ¬P entry) ∧
        ∀ entry ∈ path.earlier node depth, ¬P entry := by
  cases nodes with
  | nil =>
    obtain ⟨entry, hEntry, -⟩ := h
    exact absurd hEntry List.not_mem_nil
  | cons first rest =>
    by_cases hFirst : ∃ entry ∈ first.preorder depth, P entry
    · obtain ⟨path, node, hTree, hP, hEarlier⟩ := exists_first hFirst
      exact ⟨[], path, node, rest, by rw [hTree, List.nil_append], hP,
        fun entry hEntry => absurd hEntry List.not_mem_nil, hEarlier⟩
    · have hRest : ∃ entry ∈ Node.preorderAll depth rest, P entry := by
        obtain ⟨entry, hEntry, hP⟩ := h
        rw [Node.preorderAll] at hEntry
        rcases List.mem_append.mp hEntry with hEntry | hEntry
        · exact absurd ⟨entry, hEntry, hP⟩ hFirst
        · exact ⟨entry, hEntry, hP⟩
      obtain ⟨before, path, node, after, rfl, hP, hBefore, hEarlier⟩ := exists_firstAll hRest
      refine ⟨first :: before, path, node, after, rfl, hP, ?_, hEarlier⟩
      intro entry hEntry
      rw [Node.preorderAll] at hEntry
      rcases List.mem_append.mp hEntry with hEntry | hEntry
      · exact fun hP => hFirst ⟨entry, hEntry, hP⟩
      · exact hBefore entry hEntry

end

end Path

end XmlLayout.Document
