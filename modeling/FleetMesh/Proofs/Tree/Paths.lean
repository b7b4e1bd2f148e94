/-
Nodes by the paths that lead to them.

A path of keys leads to at most one node (`Node.at?`), and a tree whose tables of
children are in key order has no other nodes than those that a path leads to
(`mem_subtree_iff`).  What a node says of itself apart from its global status is
its own record, `Node.own?` along a path: an operation on trees is understood
once it is known what it does to the own records.

A property that has to hold at every node of a tree is stated with
`Node.Everywhere`.  Many such properties look at a node's own record and at the
keys and own records of its children, and do not mind when children are left
out.  These are the properties for which `Thinner` nodes inherit them.
-/
import FleetMesh.Node
import FleetMesh.Proofs.Keyed

namespace FleetMesh

/-- The record without the global status, which is derived from the tree. -/
def NodeInfo.own (info : NodeInfo) : NodeInfo := { info with globalStatus := 0 }

namespace Node

/-! ## Induction -/

mutual

/-- What passes from the children of a node to the node holds of every tree. -/
theorem induct {P : Node → Prop} (step : ∀ n : Node, (∀ e ∈ n.children, P e.2) → P n) :
    ∀ n : Node, P n
  | ⟨info, children⟩ => step ⟨info, children⟩ (inductAll step children)

theorem inductAll {P : Node → Prop} (step : ∀ n : Node, (∀ e ∈ n.children, P e.2) → P n) :
    ∀ children : List (String × Node), ∀ e ∈ children, P e.2
  | [], _, he => absurd he List.not_mem_nil
  | (key, child) :: rest, e, he => by
    rcases List.mem_cons.mp he with he | he
    · subst he
      exact induct step child
    · exact inductAll step rest e he

end

/-! ## Every node of a tree -/

theorem subtrees_eq (children : List (String × Node)) :
    subtrees children = children.flatMap (fun e => e.2.subtree) := by
  induction children with
  | nil => rfl
  | cons e rest ih =>
    obtain ⟨key, child⟩ := e
    rw [subtrees, ih, List.flatMap_cons]

theorem subtree_eq (n : Node) :
    n.subtree = n :: n.children.flatMap (fun e => e.2.subtree) := by
  obtain ⟨info, children⟩ := n
  rw [subtree, subtrees_eq]

theorem mem_subtree {m n : Node} :
    m ∈ n.subtree ↔ m = n ∨ ∃ e ∈ n.children, m ∈ e.2.subtree := by
  rw [subtree_eq, List.mem_cons, List.mem_flatMap]

def Everywhere (P : Node → Prop) (n : Node) : Prop := ∀ m ∈ n.subtree, P m

instance {P : Node → Prop} [DecidablePred P] (n : Node) : Decidable (n.Everywhere P) :=
  inferInstanceAs (Decidable (∀ m ∈ n.subtree, P m))

theorem everywhere_iff {P : Node → Prop} {n : Node} :
    n.Everywhere P ↔ P n ∧ ∀ e ∈ n.children, e.2.Everywhere P := by
  constructor
  · intro h
    exact ⟨h n (mem_subtree.mpr (Or.inl rfl)),
      fun e he m hm => h m (mem_subtree.mpr (Or.inr ⟨e, he, hm⟩))⟩
  · intro ⟨hn, hc⟩ m hm
    rcases mem_subtree.mp hm with rfl | ⟨e, he, hm⟩
    · exact hn
    · exact hc e he m hm

/-- Other words at the root. -/
theorem Everywhere.root {P : Node → Prop} {n n' : Node} (h : n.Everywhere P) (hP : P n')
    (hchildren : n'.children = n.children) : n'.Everywhere P :=
  everywhere_iff.mpr ⟨hP, hchildren ▸ (everywhere_iff.mp h).2⟩

/-! ## Paths -/

theorem at?_cons (key : String) (path : List String) (n : Node) :
    at? (key :: path) n = (Keyed.find? key n.children).bind (at? path) := rfl

theorem at?_append (p q : List String) (n : Node) :
    at? (p ++ q) n = (at? p n).bind (at? q) := by
  induction p generalizing n with
  | nil => rfl
  | cons key p ih =>
    rw [List.cons_append, at?_cons, at?_cons, Option.bind_assoc]
    exact congrArg _ (funext fun c => ih c)

theorem at?_cons_eq_some {key : String} {path : List String} {n m : Node} :
    at? (key :: path) n = some m ↔
      ∃ c, Keyed.find? key n.children = some c ∧ at? path c = some m := by
  rw [at?_cons, Option.bind_eq_some_iff]

/-- Where a path ends in the tree, so does every path it passes through. -/
theorem at?_of_above {a p : List String} {n m : Node} (ha : a <+: p) (h : at? p n = some m) :
    ∃ k, at? a n = some k := by
  obtain ⟨q, rfl⟩ := ha
  rw [at?_append, Option.bind_eq_some_iff] at h
  obtain ⟨k, hk, _⟩ := h
  exact ⟨k, hk⟩

theorem Everywhere.at? {P : Node → Prop} {n m : Node} {path : List String}
    (h : n.Everywhere P) (hm : at? path n = some m) : m.Everywhere P := by
  induction path generalizing n with
  | nil => exact Option.some.inj hm ▸ h
  | cons key path ih =>
    obtain ⟨c, hc, hm⟩ := at?_cons_eq_some.mp hm
    exact ih ((everywhere_iff.mp h).2 _ (Keyed.mem_of_find? hc)) hm

/-- Every table of children is in key order. -/
def InOrder (n : Node) : Prop := n.Everywhere (fun m => Keyed.Ordered m.children)

instance (n : Node) : Decidable n.InOrder :=
  inferInstanceAs (Decidable (n.Everywhere
    (fun m => m.children.Pairwise (fun a b => a.1 < b.1))))

theorem InOrder.ordered {n : Node} (h : n.InOrder) : Keyed.Ordered n.children :=
  (everywhere_iff.mp h).1

theorem InOrder.child {n c : Node} {key : String} (h : n.InOrder)
    (hc : Keyed.find? key n.children = some c) : c.InOrder :=
  (everywhere_iff.mp h).2 _ (Keyed.mem_of_find? hc)

/-- The nodes of a tree are those that its paths lead to. -/
theorem mem_subtree_iff {n m : Node} (hn : n.InOrder) :
    m ∈ n.subtree ↔ ∃ path, at? path n = some m := by
  induction n using induct with
  | step n ih =>
    have hchild : ∀ e ∈ n.children, e.2.InOrder := (everywhere_iff.mp hn).2
    constructor
    · intro hm
      rcases mem_subtree.mp hm with rfl | ⟨e, he, hm⟩
      · exact ⟨[], rfl⟩
      · obtain ⟨path, hpath⟩ := (ih e he (hchild e he)).mp hm
        exact ⟨e.1 :: path, at?_cons_eq_some.mpr ⟨e.2, Keyed.find?_of_mem hn.ordered he, hpath⟩⟩
    · intro h
      obtain ⟨path, hpath⟩ := h
      cases path with
      | nil => exact mem_subtree.mpr (Or.inl (Option.some.inj hpath).symm)
      | cons key path =>
        obtain ⟨c, hc, hpath⟩ := at?_cons_eq_some.mp hpath
        have he := Keyed.mem_of_find? hc
        exact mem_subtree.mpr (Or.inr ⟨(key, c), he, (ih _ he (hchild _ he)).mpr ⟨path, hpath⟩⟩)

/-! ## Levels -/

theorem height_eq (n : Node) : n.height = heights n.children + 1 := by
  obtain ⟨info, children⟩ := n
  rw [height]

theorem heights_le_iff {children : List (String × Node)} {limit : Nat} :
    heights children ≤ limit ↔ ∀ e ∈ children, e.2.height ≤ limit := by
  induction children with
  | nil => simp [heights]
  | cons e rest ih =>
    obtain ⟨key, child⟩ := e
    rw [heights, Nat.max_le, ih, List.forall_mem_cons]

theorem length_lt_height {path : List String} {n m : Node} (h : at? path n = some m) :
    path.length < n.height := by
  induction path generalizing n with
  | nil =>
    rw [height_eq]
    exact Nat.succ_pos _
  | cons key path ih =>
    obtain ⟨c, hc, h⟩ := at?_cons_eq_some.mp h
    have hlt := ih h
    have hle : c.height ≤ heights n.children :=
      heights_le_iff.mp (Nat.le_refl _) _ (Keyed.mem_of_find? hc)
    rw [height_eq, List.length_cons]
    omega

/-! ## Records -/

/-- The record of the node at the end of a path, its global status with it. -/
def info? (path : List String) (n : Node) : Option NodeInfo :=
  (at? path n).map (fun m => m.toNodeInfo)

theorem info?_cons (key : String) (path : List String) (n : Node) :
    info? (key :: path) n = (Keyed.find? key n.children).bind (info? path) := by
  rw [info?, at?_cons, Option.map_bind]
  rfl

/-- The own record of the node at the end of a path. -/
def own? (path : List String) (n : Node) : Option NodeInfo :=
  (at? path n).map (fun m => m.toNodeInfo.own)

theorem own?_cons (key : String) (path : List String) (n : Node) :
    own? (key :: path) n = (Keyed.find? key n.children).bind (own? path) := by
  rw [own?, at?_cons, Option.map_bind]
  rfl

theorem own?_eq_info? (path : List String) (n : Node) :
    own? path n = (info? path n).map NodeInfo.own := by
  rw [own?, info?, Option.map_map]
  rfl

theorem own?_isSome {path : List String} {n : Node} :
    (own? path n).isSome = (at? path n).isSome := by
  rw [own?, Option.isSome_map]

/-- The identifier of the node at the end of a path. -/
def uuid? (path : List String) (n : Node) : Option String :=
  (at? path n).map (fun m => m.uuid)

theorem uuid?_cons (key : String) (path : List String) (n : Node) :
    uuid? (key :: path) n = (Keyed.find? key n.children).bind (uuid? path) := by
  rw [uuid?, at?_cons, Option.map_bind]
  rfl

theorem uuid?_eq_info? (path : List String) (n : Node) :
    uuid? path n = (info? path n).map (fun info => info.uuid) := by
  rw [uuid?, info?, Option.map_map]
  rfl

theorem uuid?_eq_own? (path : List String) (n : Node) :
    uuid? path n = (own? path n).map (fun info => info.uuid) := by
  rw [uuid?, own?, Option.map_map]
  rfl

theorem uuid?_eq_some {path : List String} {n : Node} {uuid : String} :
    uuid? path n = some uuid ↔ ∃ m, at? path n = some m ∧ m.uuid = uuid := by
  rw [uuid?, Option.map_eq_some_iff]

/-- The keys of a node's children and what the children say of themselves. -/
def labels (n : Node) : List (String × NodeInfo) :=
  n.children.map (fun e => (e.1, e.2.toNodeInfo.own))

/-- The one node is the other without some of its children.  What stands further
below and the global statuses do not count. -/
structure Thinner (m' m : Node) : Prop where
  own : m'.toNodeInfo.own = m.toNodeInfo.own
  labels : (labels m').Sublist (labels m)

/-- Whether a thinner node keeps the property. -/
def Stable (P : Node → Prop) : Prop := ∀ m' m : Node, Thinner m' m → P m → P m'

theorem stable_ordered : Stable (fun m => Keyed.Ordered m.children) := by
  intro m' m h hm
  have hkeys : ∀ n : Node, (labels n).map Prod.fst = Keyed.keys n.children := by
    intro n
    rw [Node.labels, List.map_map]
    rfl
  rw [Keyed.ordered_iff_keys, ← hkeys] at hm ⊢
  exact List.Pairwise.sublist (h.labels.map Prod.fst) hm

end Node
end FleetMesh
