/-
Global statuses.

`rollup` sets the global status of every node and changes nothing else: the own
records stay as they are (`own?_rollup`), and a second rollup finds nothing to do
(`rollup_rollup`).  A tree that a rollup leaves as it is has the right global
status at every node, and that is what `Rated` says without mentioning `rollup`
(`rollup_eq_self_iff_rated`): it is the greatest of the node's local status and the
global statuses of its children.
-/
import FleetMesh.Proofs.Tree.Paths

namespace FleetMesh
namespace Node

/-! ## What a rollup does -/

theorem rollupAll_eq (children : List (String × Node)) :
    rollupAll children = Keyed.mapValues rollup children := by
  induction children with
  | nil => rfl
  | cons e rest ih =>
    obtain ⟨key, child⟩ := e
    rw [rollupAll, ih]
    rfl

theorem rollup_eq (n : Node) :
    rollup n = rate { n with children := Keyed.mapValues rollup n.children } := by
  obtain ⟨info, children⟩ := n
  rw [rollup, rollupAll_eq]

theorem rollup_children (n : Node) :
    (rollup n).children = Keyed.mapValues rollup n.children := by
  rw [rollup_eq]
  rfl

theorem rollup_own (n : Node) : (rollup n).toNodeInfo.own = n.toNodeInfo.own := by
  rw [rollup_eq]
  rfl

theorem rollup_uuid (n : Node) : (rollup n).uuid = n.uuid := by
  rw [rollup_eq]
  rfl

theorem at?_rollup (path : List String) (n : Node) :
    at? path (rollup n) = (at? path n).map rollup := by
  induction path generalizing n with
  | nil => rfl
  | cons key path ih =>
    rw [at?_cons, at?_cons, rollup_children, Keyed.find?_mapValues]
    cases Keyed.find? key n.children with
    | none => rfl
    | some c => exact ih c

theorem own?_rollup (path : List String) (n : Node) : own? path (rollup n) = own? path n := by
  rw [own?, own?, at?_rollup, Option.map_map]
  exact congrArg (fun f => Option.map f (at? path n)) (funext rollup_own)

theorem labels_rollup (n : Node) : labels (rollup n) = labels n := by
  rw [labels, labels, rollup_children, Keyed.mapValues, List.map_map]
  exact congrArg (fun f => List.map f n.children)
    (funext fun e => congrArg (Prod.mk e.1) (rollup_own e.2))

theorem thinner_rollup (n : Node) : Thinner (rollup n) n :=
  ⟨rollup_own n, labels_rollup n ▸ List.Sublist.refl _⟩

/-- A property of thinner nodes does not depend on the global statuses. -/
theorem Everywhere.rollup {P : Node → Prop} (hP : Stable P) {n : Node} (h : n.Everywhere P) :
    n.rollup.Everywhere P := by
  induction n using induct with
  | step n ih =>
    obtain ⟨hn, hc⟩ := everywhere_iff.mp h
    refine everywhere_iff.mpr ⟨hP _ _ (thinner_rollup n) hn, ?_⟩
    intro e he
    rw [rollup_children, Keyed.mapValues, List.mem_map] at he
    obtain ⟨d, hd, rfl⟩ := he
    exact ih d hd (hc d hd)

/-! ## Trees that are rolled up -/

theorem rollup_rollup (n : Node) : rollup (rollup n) = rollup n := by
  induction n using induct with
  | step n ih =>
    have hmap : Keyed.mapValues rollup (Keyed.mapValues rollup n.children)
        = Keyed.mapValues rollup n.children := by
      rw [Keyed.mapValues, Keyed.mapValues, List.map_map]
      exact List.map_congr_left fun e he => congrArg (Prod.mk e.1) (ih e he)
    rw [rollup_eq (rollup n), rollup_children, hmap, rollup_eq n]
    rfl

/-- Nodes of a tree that is rolled up are rolled up. -/
theorem rollup_at? {n m : Node} {path : List String} (h : rollup n = n)
    (hm : at? path n = some m) : rollup m = m := by
  have hmap : at? path (rollup n) = some (rollup m) := by rw [at?_rollup, hm]; rfl
  rw [h, hm] at hmap
  exact (Option.some.inj hmap).symm

theorem worst_eq_max? (status : Int) (children : List (String × Node)) :
    (status :: children.map (fun e => e.2.globalStatus)).max? = some (worst status children) := by
  rw [List.max?_cons', List.foldl_map]
  rfl

/-- What a rollup leaves as it is. -/
theorem rollup_eq_self_iff {n : Node} : rollup n = n ↔
    Keyed.mapValues rollup n.children = n.children ∧
      worst (localStatus n.toNodeInfo) n.children = n.globalStatus := by
  constructor
  · intro h
    have hchildren : Keyed.mapValues rollup n.children = n.children := by
      rw [← rollup_children, h]
    have hstatus : (rollup n).globalStatus = n.globalStatus := by rw [h]
    rw [rollup_eq, hchildren] at hstatus
    exact ⟨hchildren, hstatus⟩
  · intro h
    obtain ⟨hchildren, hstatus⟩ := h
    rw [rollup_eq, hchildren, rate, hstatus]
    -- a node is one of its own fields, so it is not by definition made of them
    cases n
    rfl

theorem rate_congr {n m : Node} (hown : n.toNodeInfo.own = m.toNodeInfo.own)
    (hchildren : n.children = m.children) : rate n = rate m := by
  obtain ⟨info, children⟩ := n
  obtain ⟨info', children'⟩ := m
  obtain rfl : children = children' := hchildren
  cases info
  cases info'
  simp only [NodeInfo.own, NodeInfo.mk.injEq, true_and] at hown
  obtain ⟨rfl, rfl, rfl, rfl, rfl, rfl, rfl, rfl⟩ := hown
  rfl

/-- What is made of the children under a key, where the own records are the same. -/
theorem map_find?_congr {n m : Node} {key : String} {f : Node → Node}
    (h : ∀ p, own? (key :: p) n = own? (key :: p) m)
    (hf : ∀ c d, Keyed.find? key n.children = some c → Keyed.find? key m.children = some d →
      (∀ p, own? p c = own? p d) → f c = f d) :
    (Keyed.find? key n.children).map f = (Keyed.find? key m.children).map f := by
  simp only [own?_cons] at h
  cases hc : Keyed.find? key n.children with
  | none =>
    cases hd : Keyed.find? key m.children with
    | none => rfl
    | some d =>
      have hnone := h []
      rw [hc, hd] at hnone
      exact nomatch hnone
  | some c =>
    cases hd : Keyed.find? key m.children with
    | none =>
      have hnone := h []
      rw [hc, hd] at hnone
      exact nomatch hnone
    | some d =>
      rw [hc, hd] at h
      exact congrArg some (hf c d hc hd h)

/-- Trees with the same own records everywhere have one rollup. -/
theorem rollup_congr {n m : Node} (hn : n.InOrder) (hm : m.InOrder)
    (h : ∀ p, own? p n = own? p m) : rollup n = rollup m := by
  induction n using induct generalizing m with
  | step n ih =>
    have hordered : ∀ k : Node, k.InOrder → Keyed.Ordered (Keyed.mapValues rollup k.children) :=
      fun k hk => Keyed.ordered_mapValues.mpr hk.ordered
    rw [rollup_eq, rollup_eq]
    refine rate_congr (Option.some.inj (h [])) ?_
    refine Keyed.ext_find? (hordered n hn) (hordered m hm) fun key => ?_
    rw [Keyed.find?_mapValues, Keyed.find?_mapValues]
    exact map_find?_congr (fun p => h (key :: p)) fun c d hc hd hbelow =>
      ih _ (Keyed.mem_of_find? hc) (hn.child hc) (hm.child hd) hbelow

/-- Trees that are rolled up have the same child where the own records are the same. -/
theorem find?_congr {n m : Node} (hn : n.InOrder) (hm : m.InOrder) (hrn : rollup n = n)
    (hrm : rollup m = m) {key : String} (h : ∀ p, own? (key :: p) n = own? (key :: p) m) :
    Keyed.find? key n.children = Keyed.find? key m.children := by
  have hrolled : ∀ k : Node, rollup k = k →
      (Keyed.find? key k.children).map rollup = Keyed.find? key k.children := by
    intro k hk
    rw [← Keyed.find?_mapValues, ← rollup_children, hk]
  rw [← hrolled n hrn, ← hrolled m hrm]
  exact map_find?_congr h fun c d hc hd hbelow =>
    rollup_congr (hn.child hc) (hm.child hd) hbelow

/-- The global status of a node that is rolled up is the greatest of its local
status and the global statuses of its children. -/
theorem globalStatus_of_rollup {n : Node} (h : rollup n = n) :
    (localStatus n.toNodeInfo :: n.children.map (fun e => e.2.globalStatus)).max?
      = some n.globalStatus := by
  rw [worst_eq_max?, (rollup_eq_self_iff.mp h).2]

/-! ## Every node -/

/-- Whether the global status of a node is the greatest of its local status and the
global statuses of its children. -/
def Rated (n : Node) : Prop :=
  (localStatus n.toNodeInfo :: n.children.map (fun e => e.2.globalStatus)).max?
    = some n.globalStatus

instance : DecidablePred Rated := fun _ => inferInstanceAs (Decidable (_ = _))

/-- The trees that a rollup leaves as they are. -/
theorem rollup_eq_self_iff_rated {n : Node} : rollup n = n ↔ n.Everywhere Rated := by
  induction n using induct with
  | step n ih =>
    have hrated : worst (localStatus n.toNodeInfo) n.children = n.globalStatus ↔ Rated n := by
      rw [Rated, worst_eq_max?, Option.some.injEq]
    rw [rollup_eq_self_iff, Keyed.mapValues_eq_self_iff, everywhere_iff, hrated, and_comm]
    exact and_congr_right fun _ => forall_congr' fun e => forall_congr' fun he => ih e he

theorem rated_rollup (n : Node) : n.rollup.Everywhere Rated :=
  rollup_eq_self_iff_rated.mp (rollup_rollup n)

end Node
end FleetMesh
