/-
What normalizing makes of any tree.

The children of a node are stored again, one after the other, under their own
identifiers, and so they may take each other's keys.  In the end an identifier
belongs to the last child that has it (`Kept`), whatever keys there were.  A node of
the tree is kept if it and all above it are, and it comes to stand at the end of its
identifiers (`Settles`).

`Rebuilt` says that these nodes and no others make up the tree, and what becomes of
their records.  It is a statement on the tree before and the tree after, and it does
not mention how the one is made of the other.
-/
import FleetMesh.Proofs.Tree.Normal

namespace FleetMesh

/-- What a node says of itself when what can be computed is computed: the host has the
status of its worst reading, and its name is there for a hostname. -/
def NodeInfo.restored (info : NodeInfo) : NodeInfo :=
  { info with
    hostname := if info.hostname = "" then info.localHost.name else info.hostname
    localHost := { info.localHost with
      status := (info.localHost.readings.map (fun e => e.2.status)).max?.getD Status.ok } }

namespace Node

/-- Whether a child keeps its place in a table: it has an identifier, and no child
under a greater key has the same. -/
def Kept (children : List (String × Node)) (key : String) (child : Node) : Prop :=
  (key, child) ∈ children ∧ child.uuid ≠ "" ∧
    ∀ e ∈ children, key < e.1 → e.2.uuid ≠ child.uuid

/-- The node `m` of a tree is kept with all above it, and `p` are the identifiers on
the way. -/
inductive Settles : Node → List String → Node → Prop
  | root (n : Node) : Settles n [] n
  | child {n child m : Node} {key : String} {p : List String}
    (hkept : Kept n.children key child) (h : Settles child p m) : Settles n (child.uuid :: p) m

/-- The outcome of normalizing `n`. -/
structure Rebuilt (n after : Node) : Prop where
  /-- What is kept, and where.  Of the own records nothing else is changed. -/
  records : ∀ p info, own? p after = some info ↔
    ∃ m, Settles n p m ∧ m.toNodeInfo.own.restored = info
  filed : ∀ m ∈ after.subtree, Keyed.Ordered m.children ∧
    ∀ e ∈ m.children, e.1 = e.2.uuid ∧ e.2.uuid ≠ ""
  statuses : ∀ m ∈ after.subtree,
    ((if m.isAlive then m.localHost.status else max m.localHost.status Status.down) ::
      m.children.map (fun e => e.2.globalStatus)).max? = some m.globalStatus

variable {n m : Node} {children : List (String × Node)} {key : String} {child : Node}

/-! ## One table -/

/-- The first child of a table has all others under greater keys. -/
theorem kept_head {rest : List (String × Node)}
    (hlt : ∀ e ∈ rest, key < e.1) :
    Kept ((key, child) :: rest) key child ↔
      child.uuid ≠ "" ∧ ∀ e ∈ rest, e.2.uuid ≠ child.uuid := by
  constructor
  · intro h
    obtain ⟨_, hid, hlast⟩ := h
    exact ⟨hid, fun e he => hlast e (List.mem_cons_of_mem _ he) (hlt e he)⟩
  · intro h
    obtain ⟨hid, hlast⟩ := h
    refine ⟨List.mem_cons_self, hid, fun e he hkey => ?_⟩
    rcases List.mem_cons.mp he with rfl | he
    · exact absurd hkey (String.lt_irrefl key)
    · exact hlast e he

/-- The first child takes no place from the others. -/
theorem kept_tail {rest : List (String × Node)} {e : String × Node}
    (hlt : ∀ d ∈ rest, e.1 < d.1) (hmem : (key, child) ∈ rest) :
    Kept (e :: rest) key child ↔ Kept rest key child := by
  constructor
  · intro h
    obtain ⟨_, hid, hlast⟩ := h
    exact ⟨hmem, hid, fun d hd => hlast d (List.mem_cons_of_mem _ hd)⟩
  · intro h
    obtain ⟨_, hid, hlast⟩ := h
    refine ⟨List.mem_cons_of_mem _ hmem, hid, fun d hd hkey => ?_⟩
    rcases List.mem_cons.mp hd with rfl | hd
    · exact absurd (String.lt_trans hkey (hlt _ hmem)) (String.lt_irrefl key)
    · exact hlast d hd hkey

/-- Under an identifier stands the child that keeps its place, or else what was there. -/
theorem find?_normalizeAll (hord : Keyed.Ordered children) (done : List (String × Node))
    (uuid : String) :
    Keyed.find? uuid (normalizeAll children done) = some m ↔
      (∃ key child, Kept children key child ∧ child.uuid = uuid ∧ child.normalize = m) ∨
        (∀ e ∈ children, e.2.uuid = uuid → uuid = "") ∧ Keyed.find? uuid done = some m := by
  induction children generalizing done with
  | nil =>
    rw [normalizeAll]
    constructor
    · exact fun h => Or.inr ⟨fun e he => absurd he List.not_mem_nil, h⟩
    · intro h
      rcases h with ⟨_, _, hkept, _⟩ | ⟨_, h⟩
      · exact absurd hkept.1 List.not_mem_nil
      · exact h
  | cons e rest ih =>
    obtain ⟨key, child⟩ := e
    obtain ⟨hlt, hrest⟩ := List.pairwise_cons.mp hord
    have hkept : (∃ k c, Kept ((key, child) :: rest) k c ∧ c.uuid = uuid ∧ c.normalize = m) ↔
        (∃ k c, Kept rest k c ∧ c.uuid = uuid ∧ c.normalize = m) ∨
          (child.uuid ≠ "" ∧ (∀ e ∈ rest, e.2.uuid ≠ child.uuid)) ∧ child.uuid = uuid ∧
            child.normalize = m := by
      constructor
      · intro h
        obtain ⟨k, c, hk, h⟩ := h
        rcases List.mem_cons.mp hk.1 with he | hmem
        · obtain ⟨rfl, rfl⟩ := Prod.mk.inj he
          exact Or.inr ⟨(kept_head hlt).mp hk, h⟩
        · exact Or.inl ⟨k, c, (kept_tail hlt hmem).mp hk, h⟩
      · intro h
        rcases h with ⟨k, c, hk, h⟩ | ⟨hk, h⟩
        · exact ⟨k, c, (kept_tail hlt hk.1).mpr hk, h⟩
        · exact ⟨key, child, (kept_head hlt).mpr hk, h⟩
    rw [normalizeAll, ih hrest, hkept, List.forall_mem_cons]
    by_cases hid : child.uuid = ""
    · rw [if_pos hid]
      simp [hid]
    · rw [if_neg hid, Keyed.find?_insert]
      by_cases hu : child.uuid = uuid
      · subst hu
        simp [hid]
      · simp [hu]

/-- A table that is filled anew holds the children that keep their places. -/
theorem find?_normalized (hord : Keyed.Ordered children) (uuid : String) :
    Keyed.find? uuid (normalizeAll children []) = some m ↔
      ∃ key child, Kept children key child ∧ child.uuid = uuid ∧ child.normalize = m := by
  rw [find?_normalizeAll hord]
  exact or_iff_left fun h => nomatch h.2

/-! ## The tree -/

theorem settles_nil : Settles n [] m ↔ m = n :=
  ⟨fun h => by cases h; rfl, fun h => h ▸ .root n⟩

theorem settles_cons {uuid : String} {p : List String} :
    Settles n (uuid :: p) m ↔
      ∃ key child, Kept n.children key child ∧ child.uuid = uuid ∧ Settles child p m := by
  constructor
  · intro h
    cases h with
    | child hkept h => exact ⟨_, _, hkept, rfl, h⟩
  · intro h
    obtain ⟨key, child, hkept, rfl, h⟩ := h
    exact .child hkept h

theorem restored_own (info : NodeInfo) :
    NodeInfo.own { info with
      hostname := if info.hostname = "" then info.localHost.name else info.hostname
      localHost := info.localHost.rate } = info.own.restored := by
  rw [Host.rate, Host.worst_eq_max?]
  rfl

/-- The own records of a normalized tree are those of the nodes that are kept. -/
theorem own?_normalize (h : n.InOrder) (p : List String) (info : NodeInfo) :
    own? p n.normalize = some info ↔ ∃ m, Settles n p m ∧ m.toNodeInfo.own.restored = info := by
  induction n using induct generalizing p with
  | step n ih =>
    rw [normalize_eq, own?_rollup]
    cases p with
    | nil =>
      show some (NodeInfo.own _) = some info ↔ _
      rw [restored_own, Option.some.injEq]
      simp only [settles_nil, exists_eq_left]
    | cons uuid p =>
      rw [own?_cons, Option.bind_eq_some_iff]
      simp only [find?_normalized h.ordered, settles_cons]
      constructor
      · intro hbelow
        obtain ⟨_, ⟨key, child, hkept, hid, rfl⟩, hown⟩ := hbelow
        obtain ⟨m, hm, hrecord⟩ :=
          (ih (key, child) hkept.1 ((everywhere_iff.mp h).2 _ hkept.1) p).mp hown
        exact ⟨m, ⟨key, child, hkept, hid, hm⟩, hrecord⟩
      · intro hbelow
        obtain ⟨m, ⟨key, child, hkept, hid, hm⟩, hrecord⟩ := hbelow
        exact ⟨child.normalize, ⟨key, child, hkept, hid, rfl⟩,
          (ih (key, child) hkept.1 ((everywhere_iff.mp h).2 _ hkept.1) p).mpr ⟨m, hm, hrecord⟩⟩

theorem rollup_normalize (n : Node) : n.normalize.rollup = n.normalize := by
  rw [normalize_eq, rollup_rollup]

/-- Any tree whose tables of children are in key order, whatever keys, identifiers and
statuses it states, is rebuilt by normalizing it, and that is done with once. -/
theorem normalize_rebuilt (h : n.InOrder) :
    Rebuilt n n.normalize ∧ n.normalize.normalize = n.normalize := by
  have hsound := normalize_sound n
  refine ⟨⟨own?_normalize h, fun m hm => ⟨(hsound m hm).ordered, (hsound m hm).filed⟩, ?_⟩,
    normalize_eq_self hsound (rollup_normalize n) (normalize_named n)⟩
  intro m hm
  obtain ⟨path, hpath⟩ := (mem_subtree_iff hsound.inOrder).mp hm
  exact globalStatus_of_rollup (rollup_at? (rollup_normalize n) hpath)

/-- A tree with two machines `b` and a machine `c` under the key of one of them, with
one that has no identifier, and with statuses and a hostname that are wrong. -/
def misfiledTree : Node :=
  let machine (uuid : String) (children : List (String × Node)) : Node :=
    { Node.new uuid ("host-" ++ uuid) "" 0 with children := children }
  { machine "r" [("a", machine "b" [("x", machine "e" [])]), ("b", machine "c" []),
      ("c", { (machine "b" [("", machine "d" []), ("d", machine "" [])]) with
        hostname := "", globalStatus := 7 }),
      ("d", machine "" [("f", machine "f" [])])] with globalStatus := -3 }

theorem misfiledTree_rebuilt :
    misfiledTree.InOrder ∧
      misfiledTree.normalize.subtree.map (fun m => (m.uuid, m.hostname, m.globalStatus)) =
        [("r", "host-r", Status.ok), ("b", "host-b", Status.ok), ("d", "host-d", Status.ok),
          ("c", "host-c", Status.ok)] ∧
      Rebuilt misfiledTree misfiledTree.normalize ∧
      misfiledTree.normalize.normalize = misfiledTree.normalize := by
  have h : misfiledTree.InOrder := by decide
  exact ⟨h, by decide, normalize_rebuilt h⟩

end Node
end FleetMesh
