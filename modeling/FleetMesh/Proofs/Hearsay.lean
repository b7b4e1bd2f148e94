/-
What a snapshot says of its own statuses.

A machine that reports states a status for every host and every node below it, and
may lie.  Two snapshots are `Alike` if they are the same in all that a merge may go by.
Normalizing brings them to trees that differ in the probes out of service alone
(`normalize_unrated`), and no search, removal or comparison looks at these
(`Alike.merged`, `diff_inService`).  So a merge of the one does and reports what a
merge of the other does, and that is `Mesh.merge_of_alike`.
-/
import FleetMesh.Proofs.Duplicates.Repeat
import FleetMesh.Proofs.Tree.Restate

namespace FleetMesh

/-- The record without the probes that are out of service. -/
def NodeInfo.inService (info : NodeInfo) : NodeInfo := { info with disabled := [] }

/-- The record without the statuses that it states either. -/
def NodeInfo.unrated (info : NodeInfo) : NodeInfo :=
  { info.inService with globalStatus := 0, localHost := { info.localHost with status := 0 } }

namespace Node

/-- Snapshots that differ in statuses and in probes out of service, at any nodes, and
in the date of the topmost one. -/
def Alike (x y : Node) : Prop :=
  restate NodeInfo.unrated { x with lastUpdate := 0 } =
    restate NodeInfo.unrated { y with lastUpdate := 0 }

variable {n x y : Node} {f : NodeInfo → NodeInfo} {key : String} {now : Int}

/-! ## Probes out of service -/

theorem own?_inService (p : List String) (n : Node) :
    own? p (n.restate NodeInfo.inService) = (own? p n).map NodeInfo.inService := by
  rw [own?, own?, at?_restate, Option.map_map, Option.map_map]
  refine congrArg (fun g => Option.map g (at? p n)) (funext fun m => ?_)
  show (m.restate NodeInfo.inService).toNodeInfo.own = m.toNodeInfo.own.inService
  rw [restate_eq]
  rfl

theorem fair_inService : Fair NodeInfo.inService where
  uuid _ := rfl
  named _ h := h
  rated _ h := h
  localStatus _ := rfl
  globalStatus _ _ := rfl

/-- Normalizing puts the statuses right, whatever they were. -/
theorem normalize_unrated (n : Node) :
    (n.restate NodeInfo.unrated).normalize = n.normalize.restate NodeInfo.inService := by
  induction n using induct with
  | step n ih =>
    have hall : ∀ children, (∀ e ∈ children, (restate NodeInfo.unrated e.2).normalize =
          restate NodeInfo.inService e.2.normalize) → ∀ done,
        normalizeAll (Keyed.mapValues (restate NodeInfo.unrated) children)
            (Keyed.mapValues (restate NodeInfo.inService) done) =
          Keyed.mapValues (restate NodeInfo.inService) (normalizeAll children done) := by
      intro children
      induction children with
      | nil =>
        intro _ done
        rw [normalizeAll]
        exact normalizeAll.eq_1 _
      | cons e rest ihrest =>
        intro hchild done
        obtain ⟨key, child⟩ := e
        obtain ⟨hhead, hrest⟩ := List.forall_mem_cons.mp hchild
        have huuid : (restate NodeInfo.unrated child).uuid = child.uuid := by
          rw [restate_eq]
          rfl
        show normalizeAll ((key, restate NodeInfo.unrated child) ::
          Keyed.mapValues (restate NodeInfo.unrated) rest) _ = _
        rw [normalizeAll, normalizeAll, huuid, hhead, ← ihrest hrest]
        split
        · rfl
        · rw [Keyed.insert_mapValues]
    rw [normalize_eq, normalize_eq, ← fair_inService.rollup_restate, restate_eq NodeInfo.unrated n,
      restate_eq NodeInfo.inService ⟨_, _⟩]
    dsimp only
    rw [← hall n.children ih []]
    rfl

/-- Nothing that is compared is a probe out of service. -/
theorem diff_inService (old new : Node) :
    diff old (new.restate NodeInfo.inService) = diff old new := by
  induction old using induct generalizing new with
  | step old ih =>
    have hchildren : ∀ rest : List (String × Node), (∀ e ∈ rest, e ∈ old.children) →
        diffChildren rest (Keyed.mapValues (restate NodeInfo.inService) new.children) =
          diffChildren rest new.children := by
      intro rest
      induction rest with
      | nil => exact fun _ => rfl
      | cons e rest ihrest =>
        intro hmem
        obtain ⟨key, child⟩ := e
        obtain ⟨hhead, hrest⟩ := List.forall_mem_cons.mp hmem
        rw [diffChildren, diffChildren, ihrest hrest, Keyed.find?_mapValues]
        cases Keyed.find? key new.children with
        | none => rfl
        | some latest =>
          dsimp only [Option.map_some]
          rw [ih _ hhead latest]
    rw [diff_eq, diff_eq, restate_eq]
    dsimp only
    rw [hchildren old.children fun _ he => he]
    rfl

/-- What stands at a position when one child is without its probes out of service. -/
theorem own?_modifyAt_inService (n : Node) (key : String) (p : List String) :
    own? p (n.modifyAt (restate NodeInfo.inService) [key]) =
      (own? p n).map (fun info => if [key] <+: p then info.inService else info) := by
  rw [modifyAt_child]
  cases p with
  | nil =>
    exact congrArg some (if_neg fun h => List.cons_ne_nil _ _ (List.prefix_nil.mp h)).symm
  | cons k p =>
    rw [own?_cons, own?_cons, Keyed.find?_modify]
    by_cases hk : key = k
    · have hpre : [key] <+: k :: p := hk ▸ ⟨p, rfl⟩
      simp only [if_pos hk, if_pos hpre]
      cases Keyed.find? k n.children with
      | none => rfl
      | some c => exact own?_inService p c
    · have hpre : ¬ [key] <+: k :: p := fun h => hk (List.cons_prefix_cons.mp h).1
      simp only [if_neg hk, if_neg hpre, Option.map_id']

theorem uuid?_modifyAt_inService (n : Node) (key : String) (p : List String) :
    uuid? p (n.modifyAt (restate NodeInfo.inService) [key]) = uuid? p n := by
  rw [uuid?_eq_own?, uuid?_eq_own?, own?_modifyAt_inService, Option.map_map]
  refine congrArg (fun g => Option.map g (own? p n)) (funext fun info => ?_)
  show (if [key] <+: p then info.inService else info).uuid = info.uuid
  split <;> rfl

/-! ## Snapshots that are alike -/

namespace Alike

theorem uuid (h : Alike x y) : x.uuid = y.uuid := by
  have huuid := congrArg (fun m => m.uuid) h
  rw [restate_eq, restate_eq] at huuid
  exact huuid

/-- The tree is given the same snapshot, the probes out of service aside. -/
theorem received (h : Alike x y) (previous : Option Node) (now : Int) :
    (received x previous now).restate NodeInfo.inService =
      (Node.received y previous now).restate NodeInfo.inService := by
  have hnormal := congrArg normalize h
  rw [normalize_unrated, normalize_unrated] at hnormal
  -- the date and the flag are set on the normalized snapshot, and do not go by what is left out
  have hstored : ∀ z : Node, (Node.received z previous now).restate NodeInfo.inService =
      { restate NodeInfo.inService (normalize { z with lastUpdate := 0 }) with
        isAlive := if previous.any (fun p => !p.isAlive) then false else z.normalize.isAlive
        lastUpdate := now } := by
    intro z
    rw [Node.received, normalize_eq, normalize_eq, rollup_eq, rollup_eq, restate_eq, restate_eq]
    rfl
  have halive : ∀ z : Node, z.normalize.isAlive =
      (restate NodeInfo.inService (normalize { z with lastUpdate := 0 })).isAlive := by
    intro z
    rw [normalize_eq, normalize_eq, rollup_eq, rollup_eq, restate_eq]
    rfl
  rw [hstored, hstored, halive x, halive y, hnormal]

theorem own?_placed (h : Alike x y) (n : Node) (now : Int) (p : List String) :
    own? p ((placed n x now).modifyAt (restate NodeInfo.inService) [x.uuid]) =
      own? p ((placed n y now).modifyAt (restate NodeInfo.inService) [x.uuid]) := by
  rw [own?_modifyAt_inService, own?_modifyAt_inService]
  cases p with
  | nil => rfl
  | cons k p =>
    rw [placed, placed, ← h.uuid, own?_setChild, own?_setChild]
    by_cases hk : x.uuid = k
    · have hpre : [x.uuid] <+: k :: p := hk ▸ ⟨p, rfl⟩
      simp only [if_pos hk, if_pos hpre]
      exact (own?_inService p _).symm.trans
        ((congrArg (own? p) (h.received _ now)).trans (own?_inService p _))
    · rw [if_neg hk, if_neg hk]

theorem uuid?_placed (h : Alike x y) (n : Node) (now : Int) (p : List String) :
    uuid? p (placed n x now) = uuid? p (placed n y now) := by
  rw [← uuid?_modifyAt_inService _ x.uuid, ← uuid?_modifyAt_inService (placed n y now) x.uuid,
    uuid?_eq_own?, uuid?_eq_own?, h.own?_placed]

/-- The same is pruned, and named in the same order. -/
theorem prune_names (h : Alike x y) (hn : n.InOrder) (now : Int) :
    ((placed n x now).prune (some x.uuid)).2 = ((placed n y now).prune (some x.uuid)).2 :=
  prune_names_congr (inOrder_placed hn x now) (inOrder_placed hn y now)
    (pruned_congr (h.uuid?_placed n now)) fun p _ => h.uuid?_placed n now p

theorem own?_merged (h : Alike x y) (hn : n.InOrder) (now : Int) (p : List String) :
    own? p ((merged n x now).modifyAt (restate NodeInfo.inService) [x.uuid]) =
      own? p ((merged n y now).modifyAt (restate NodeInfo.inService) [x.uuid]) := by
  have hx := @own?_prune (some x.uuid) _ (inOrder_placed hn x now) p
  have hy := @own?_prune (some x.uuid) _ (inOrder_placed hn y now) p
  have hplaced := h.own?_placed n now p
  have hs : Survives (some x.uuid) (placed n x now) p ↔ Survives (some x.uuid) (placed n y now) p :=
    survives_congr (h.uuid?_placed n now) p
  rw [own?_modifyAt_inService, own?_modifyAt_inService] at hplaced
  rw [own?_modifyAt_inService, own?_modifyAt_inService, merged, merged, ← h.uuid, own?_rollup,
    own?_rollup]
  by_cases hp : Survives (some x.uuid) (placed n x now) p
  · rw [hx.1 hp, hy.1 (hs.mp hp), hplaced]
  · rw [hx.2 hp, hy.2 fun hp' => hp (hs.mpr hp')]

theorem merged (h : Alike x y) (hn : n.InOrder) (now : Int) :
    (merged n x now).modifyAt (restate NodeInfo.inService) [x.uuid] =
      (Node.merged n y now).modifyAt (restate NodeInfo.inService) [x.uuid] := by
  have hrolled : ∀ z : Node,
      ((Node.merged n z now).modifyAt (restate NodeInfo.inService) [x.uuid]).rollup =
        (Node.merged n z now).modifyAt (restate NodeInfo.inService) [x.uuid] := fun z =>
    rollup_modifyAt_child fair_inService.rollup_restate fair_inService.globalStatus_restate
      (rollup_rollup _) x.uuid
  have hordered : ∀ z : Node,
      ((Node.merged n z now).modifyAt (restate NodeInfo.inService) [x.uuid]).InOrder := fun z =>
    inOrder_modifyAt_child (fun _ hc => inOrder_restate _ hc) (inOrder_merged hn z now) x.uuid
  rw [← hrolled x, ← hrolled y]
  exact rollup_congr (hordered x) (hordered y) (h.own?_merged hn now)

/-- The child before is compared with the same child. -/
theorem changed (h : Alike x y) (hn : n.InOrder) (now : Int) (previous : Option Node) :
    changed previous (Keyed.find? x.uuid (Node.merged n x now).children) =
      Node.changed previous (Keyed.find? x.uuid (Node.merged n y now).children) := by
  have hfind := congrArg (fun m => Keyed.find? x.uuid m.children) (h.merged hn now)
  simp only [modifyAt_child, Keyed.find?_modify, if_true] at hfind
  have hdiff : ∀ stored : Option Node, Node.changed previous stored =
      Node.changed previous (stored.map (restate NodeInfo.inService)) := by
    intro stored
    cases previous with
    | none => rfl
    | some old =>
      cases stored with
      | none => rfl
      | some new => exact (diff_inService old new).symm
  rw [hdiff, hfind, ← hdiff]

end Alike

/-- `echoedSnapshot` with other statuses at each of its nodes. -/
def braggingSnapshot : Node :=
  { (echoedSnapshot.restate fun info =>
      { info with globalStatus := 42, localHost := { info.localHost with status := -1 },
                  disabled := [("load", ())] }) with lastUpdate := 99 }

end Node

namespace Mesh

open Node in
/-- A merge does not go by the statuses that a snapshot states: with two snapshots that
differ in these alone its outcome is the same, and the trees it leaves differ at most
in the probes out of service within the snapshot. -/
theorem merge_of_alike {m : Mesh} (h : m.Reachable) {x y : Node} (hxy : Alike x y) (now : Int) :
    (m.root.merge x now).2 = (m.root.merge y now).2 ∧
      (m.root.merge x now).1.modifyAt (restate NodeInfo.inService) [x.uuid] =
        (m.root.merge y now).1.modifyAt (restate NodeInfo.inService) [x.uuid] := by
  have hn := h.coherent.sound.inOrder
  by_cases hrefused : x.uuid = "" ∨ x.uuid = m.root.uuid
  · rw [merge_of_refused hrefused, merge_of_refused (hxy.uuid ▸ hrefused), ← hxy.uuid]
    exact ⟨rfl, rfl⟩
  obtain ⟨hid, hne⟩ := not_or.mp hrefused
  rw [merge_changed hid hne, merge_changed (hxy.uuid ▸ hid) (hxy.uuid ▸ hne), ← hxy.uuid,
    hxy.changed hn now, hxy.prune_names hn now]
  exact ⟨rfl, hxy.merged hn now⟩

theorem crossedRun_merge_bragging :
    Node.Alike Node.echoedSnapshot Node.braggingSnapshot ∧
      Node.braggingSnapshot.globalStatus ≠ Node.echoedSnapshot.globalStatus ∧
      (crossedRun.root.merge Node.echoedSnapshot 130).2 =
        (crossedRun.root.merge Node.braggingSnapshot 130).2 ∧
      (crossedRun.root.merge Node.echoedSnapshot 130).1.modifyAt
          (Node.restate NodeInfo.inService) ["b"] =
        (crossedRun.root.merge Node.braggingSnapshot 130).1.modifyAt
          (Node.restate NodeInfo.inService) ["b"] := by
  have halike : Node.Alike Node.echoedSnapshot Node.braggingSnapshot := rfl
  exact ⟨halike, by decide, merge_of_alike crossedRun_reachable halike 130⟩

end Mesh
end FleetMesh
