/-
Storing and removing nodes.

A child is stored under a key in place of the one that was there
(`own?_setChild`), and removing the nodes at the ends of some paths removes what
stands at or below these ends and nothing else (`info?_eraseAll`).  What is left keeps
its record as it was, the global status too, which is then that of the tree before.
-/
import FleetMesh.Proofs.Tree.Paths

namespace FleetMesh
namespace Node

/-- The node with a child stored under a key. -/
def setChild (n : Node) (key : String) (child : Node) : Node :=
  { n with children := Keyed.insert key child n.children }

theorem at?_setChild (n child : Node) (key other : String) (path : List String) :
    at? (other :: path) (n.setChild key child) =
      if key = other then at? path child else at? (other :: path) n := by
  rw [at?_cons, setChild, Keyed.find?_insert]
  by_cases h : key = other
  · rw [if_pos h, if_pos h]
    rfl
  · rw [if_neg h, if_neg h, at?_cons]

theorem own?_setChild (n child : Node) (key other : String) (path : List String) :
    own? (other :: path) (n.setChild key child) =
      if key = other then own? path child else own? (other :: path) n := by
  rw [own?, at?_setChild]
  split <;> rfl

theorem Everywhere.setChild {P : Node → Prop} {n child : Node} {key : String}
    (hn : n.Everywhere P) (hc : child.Everywhere P) (h : P (n.setChild key child)) :
    (n.setChild key child).Everywhere P := by
  refine everywhere_iff.mpr ⟨h, fun e he => ?_⟩
  rcases Keyed.mem_insert he with rfl | he
  · exact hc
  · exact (everywhere_iff.mp hn).2 e he

theorem InOrder.setChild {n child : Node} (hn : n.InOrder) (hc : child.InOrder) (key : String) :
    (n.setChild key child).InOrder :=
  Everywhere.setChild hn hc (Keyed.ordered_insert hn.ordered key child)

/-! ## Removal -/

/-- Whatever is removed below a node, the node itself says what it said. -/
theorem eraseAt_info (path : List String) (n : Node) :
    (eraseAt path n).toNodeInfo = n.toNodeInfo := by
  match path with
  | [] => rfl
  | [_] => rfl
  | _ :: _ :: _ => rfl

theorem eraseAt_own (path : List String) (n : Node) :
    (eraseAt path n).toNodeInfo.own = n.toNodeInfo.own :=
  congrArg NodeInfo.own (eraseAt_info path n)

theorem thinner_eraseAt (path : List String) (n : Node) : Thinner (eraseAt path n) n := by
  refine ⟨eraseAt_own path n, ?_⟩
  match path with
  | [] => exact List.Sublist.refl _
  | [key] => exact (Keyed.erase_sublist key n.children).map _
  | key :: k :: rest =>
    have hmap := Keyed.map_modify (g := fun e : String × Node => (e.1, e.2.toNodeInfo.own))
      (f := eraseAt (k :: rest)) (fun key c => congrArg (Prod.mk key) (eraseAt_own (k :: rest) c))
      key n.children
    show (List.map _ (Keyed.modify key (eraseAt (k :: rest)) n.children)).Sublist _
    rw [hmap]
    exact List.Sublist.refl _

theorem Everywhere.eraseAt {P : Node → Prop} (hP : Stable P) (path : List String) {n : Node}
    (h : n.Everywhere P) : (n.eraseAt path).Everywhere P := by
  induction path generalizing n with
  | nil => exact h
  | cons key path ih =>
    obtain ⟨hn, hc⟩ := everywhere_iff.mp h
    refine everywhere_iff.mpr ⟨hP _ _ (thinner_eraseAt _ n) hn, fun e he => ?_⟩
    cases path with
    | nil => exact hc e (Keyed.mem_of_mem_erase he)
    | cons k rest =>
      rcases Keyed.mem_modify he with he | ⟨c, hmem, hf⟩
      · exact hc e he
      · rw [hf]
        exact ih (hc _ hmem)

/-- What stands at the end of a path or below it is removed, and all else stays. -/
theorem info?_eraseAt {n : Node} (hn : n.InOrder) {path : List String} (hp : path ≠ [])
    (q : List String) :
    (path <+: q → info? q (eraseAt path n) = none) ∧
      (¬ path <+: q → info? q (eraseAt path n) = info? q n) := by
  induction path generalizing n q with
  | nil => exact absurd rfl hp
  | cons key path ih =>
    cases q with
    | nil => exact ⟨fun h => absurd (List.prefix_nil.mp h) (List.cons_ne_nil _ _),
        fun _ => congrArg some (eraseAt_info (key :: path) n)⟩
    | cons other q =>
      rw [info?_cons, info?_cons, List.cons_prefix_cons]
      cases path with
      | nil =>
        show (_ → (Keyed.find? other (Keyed.erase key n.children)).bind _ = _) ∧
          (_ → (Keyed.find? other (Keyed.erase key n.children)).bind _ = _)
        rw [Keyed.find?_erase hn.ordered]
        by_cases hk : key = other <;> simp [hk]
      | cons k rest =>
        show (_ → (Keyed.find? other (Keyed.modify key (eraseAt (k :: rest)) n.children)).bind _
            = _) ∧
          (_ → (Keyed.find? other (Keyed.modify key (eraseAt (k :: rest)) n.children)).bind _
            = _)
        rw [Keyed.find?_modify]
        by_cases hk : key = other
        · rw [if_pos hk]
          cases hc : Keyed.find? other n.children with
          | none => simp
          | some c =>
            have := ih (hn.child hc) (List.cons_ne_nil k rest) q
            exact ⟨fun h => this.1 h.2, fun h => this.2 fun h' => h ⟨hk, h'⟩⟩
        · rw [if_neg hk]
          exact ⟨fun h => absurd h.1 hk, fun _ => rfl⟩

theorem own?_eraseAt {n : Node} (hn : n.InOrder) {path : List String} (hp : path ≠ [])
    (q : List String) :
    (path <+: q → own? q (eraseAt path n) = none) ∧
      (¬ path <+: q → own? q (eraseAt path n) = own? q n) := by
  obtain ⟨hgone, hkept⟩ := info?_eraseAt hn hp q
  rw [own?_eq_info?, own?_eq_info?]
  exact ⟨fun h => congrArg _ (hgone h), fun h => congrArg _ (hkept h)⟩

/-- The node without what stands at or below the ends of some paths. -/
def eraseAll (paths : List (List String)) (n : Node) : Node :=
  paths.foldl (fun tree path => tree.eraseAt path) n

theorem Everywhere.eraseAll {P : Node → Prop} (hP : Stable P) (paths : List (List String))
    {n : Node} (h : n.Everywhere P) : (n.eraseAll paths).Everywhere P := by
  induction paths generalizing n with
  | nil => exact h
  | cons path paths ih => exact ih (h.eraseAt hP path)

theorem info?_eraseAll {n : Node} (hn : n.InOrder) {paths : List (List String)}
    (hp : ∀ path ∈ paths, path ≠ []) (q : List String) :
    ((∃ path ∈ paths, path <+: q) → info? q (n.eraseAll paths) = none) ∧
      ((∀ path ∈ paths, ¬ path <+: q) → info? q (n.eraseAll paths) = info? q n) := by
  induction paths generalizing n with
  | nil => exact ⟨fun ⟨_, h, _⟩ => absurd h List.not_mem_nil, fun _ => rfl⟩
  | cons path paths ih =>
    have hstep := info?_eraseAt hn (hp path List.mem_cons_self) q
    have hrest := ih (n := n.eraseAt path) (Everywhere.eraseAt stable_ordered path hn)
      (fun r hr => hp r (List.mem_cons_of_mem _ hr))
    constructor
    · intro h
      obtain ⟨r, hr, hpre⟩ := h
      by_cases hex : ∃ r ∈ paths, r <+: q
      · exact hrest.1 hex
      · have hnone : ∀ r ∈ paths, ¬ r <+: q := fun r hr h => hex ⟨r, hr, h⟩
        rcases List.mem_cons.mp hr with rfl | hr
        · exact (hrest.2 hnone).trans (hstep.1 hpre)
        · exact absurd hpre (hnone r hr)
    · intro h
      exact (hrest.2 fun r hr => h r (List.mem_cons_of_mem _ hr)).trans
        (hstep.2 (h path List.mem_cons_self))

end Node
end FleetMesh
