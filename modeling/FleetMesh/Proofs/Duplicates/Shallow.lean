/-
Merging a snapshot of a machine and its children.

Of such a snapshot a merge removes the children that the tree has as near to the
root outside of the snapshot (`pruned_grandchild_iff`), and nothing else.  So what
it stores can be said without a search (`find?_merged_shallow`).
-/
import FleetMesh.Proofs.Duplicates.Repeat
import FleetMesh.Proofs.Liveness.Sweep

namespace FleetMesh
namespace Node

variable {n snapshot : Node} {key : String}

/-- Whether a machine has a place in the tree before the children of `uuid`: as the
root, as another child of the root, or below one. -/
def outranks (n : Node) (uuid key : String) : Bool :=
  key = n.uuid ||
    n.children.any (fun e => e.1 ≠ uuid && (e.1 = key || Keyed.contains key e.2.children))

/-- A snapshot as a merge stores it. -/
def arrived (n snapshot : Node) (now : Int) : Node :=
  rollup { snapshot with
    isAlive := if n.alive? snapshot.uuid = some false then false else snapshot.isAlive
    lastUpdate := now
    disabled := []
    children := snapshot.children.filter (fun e => !n.outranks snapshot.uuid e.2.uuid) }

theorem outranks_iff {uuid : String} : n.outranks uuid key = true ↔ key = n.uuid ∨
    ∃ e ∈ n.children, e.1 ≠ uuid ∧ (e.1 = key ∨ Keyed.contains key e.2.children = true) := by
  simp [outranks]

/-! ## What is removed -/

theorem uuid?_child (hn : n.Everywhere Sound) :
    uuid? [key] n = some key ↔ Keyed.contains key n.children = true := by
  rw [Keyed.contains_iff]
  constructor
  · intro h
    obtain ⟨m, hm, _⟩ := uuid?_eq_some.mp h
    obtain ⟨c, hc, _⟩ := at?_cons_eq_some.mp hm
    exact ⟨c, hc⟩
  · intro h
    obtain ⟨c, hc⟩ := h
    have hid := ((everywhere_iff.mp hn).1.filed _ (Keyed.mem_of_find? hc)).1
    exact uuid?_eq_some.mpr ⟨c, at?_cons_eq_some.mpr ⟨c, hc, rfl⟩, hid.symm⟩

theorem clear_grandchild (hn : n.Everywhere Sound) (snapshot : Node) {j : String}
    (hj : j ≠ n.uuid) (k : String) : Clear (some snapshot.uuid) (joined n snapshot) [j, k] :=
  clear_append.mpr (survives_iff.mp (survives_child (filed_joined hn) hj))

/-- A machine that is met before its place below the snapshot has its place outside. -/
theorem outranks_of_before (hn : n.Coherent) (hkey : key ≠ snapshot.uuid) {q : List String}
    (hq : Before (some snapshot.uuid) q [snapshot.uuid, key])
    (hqu : uuid? q (joined n snapshot) = some key) : n.outranks snapshot.uuid key = true := by
  have hs := hn.sound
  have hlen := before_length hq
  rw [outranks_iff]
  match q with
  | [] => exact Or.inl (Option.some.inj hqu).symm
  | [j] =>
    obtain rfl : key = j := filed_joined hs j key hqu
    rw [joined, uuid?_setChild, if_neg hkey.symm, uuid?_child hs, Keyed.contains_iff] at hqu
    obtain ⟨c, hc⟩ := hqu
    exact Or.inr ⟨(key, c), Keyed.mem_of_find? hc, hkey, Or.inl rfl⟩
  | [j, l] =>
    rw [joined, uuid?_setChild] at hqu
    by_cases hj : snapshot.uuid = j
    · rw [if_pos hj] at hqu
      obtain rfl : key = l := uuid_of_child (normalize_sound snapshot) hqu
      exact absurd hq (hj ▸ before_irrefl _)
    · rw [if_neg hj, uuid?_cons, Option.bind_eq_some_iff] at hqu
      obtain ⟨c, hc, hl⟩ := hqu
      have hmem := Keyed.mem_of_find? hc
      have hsound := (everywhere_iff.mp hs).2 _ hmem
      obtain rfl : key = l := uuid_of_child hsound hl
      exact Or.inr ⟨(j, c), hmem, Ne.symm hj, Or.inr ((uuid?_child hsound).mp hl)⟩
  | _ :: _ :: _ :: _ => exact absurd hlen (by simp)

/-- A machine that has its place outside of the snapshot is met there first, and the search
comes as far. -/
theorem before_of_outranks (hn : n.Coherent) (h : n.outranks snapshot.uuid key = true) :
    ∃ q, Before (some snapshot.uuid) q [snapshot.uuid, key] ∧
      Clear (some snapshot.uuid) (joined n snapshot) q ∧
      uuid? q (joined n snapshot) = some key := by
  have hs := hn.sound
  rcases outranks_iff.mp h with rfl | ⟨e, he, hother, hplace⟩
  · exact ⟨[], Or.inl (by simp), clear_nil, rfl⟩
  have hfind := Keyed.find?_of_mem hs.inOrder.ordered he
  rcases hplace with rfl | hbelow
  · refine ⟨[e.1], Or.inl (by simp), clear_append.mpr ⟨clear_nil, not_pruned_nil⟩, ?_⟩
    rw [joined, uuid?_setChild, if_neg hother.symm, uuid?_child hs, Keyed.contains_iff]
    exact ⟨e.2, hfind⟩
  · have hroot : e.1 ≠ n.uuid := by
      intro hroot
      have hnone := own?_self hn
      rw [← hroot, own?_cons, hfind] at hnone
      cases hnone
    -- as near to the root, but not in the snapshot, which is searched last
    refine ⟨[e.1, key], Or.inr ⟨rfl, Or.inl ⟨?_, ?_⟩⟩, clear_grandchild hs snapshot hroot key, ?_⟩
    · intro hent
      obtain ⟨k, hk, hpre⟩ := hent
      obtain rfl := Option.some.inj hk
      exact hother (List.cons_prefix_cons.mp hpre).1.symm
    · exact ⟨snapshot.uuid, rfl, ⟨[key], rfl⟩⟩
    · rw [joined, uuid?_setChild, if_neg hother.symm, uuid?_cons, hfind]
      exact (uuid?_child ((everywhere_iff.mp hs).2 e he)).mpr hbelow

/-- A child of the snapshot is a duplicate exactly if its place is taken outside. -/
theorem pruned_grandchild_iff (hn : n.Coherent) (hne : snapshot.uuid ≠ n.uuid)
    (hkey : key ≠ snapshot.uuid)
    (h : uuid? [snapshot.uuid, key] (joined n snapshot) = some key) :
    Pruned (some snapshot.uuid) (joined n snapshot) [snapshot.uuid, key] ↔
      n.outranks snapshot.uuid key = true := by
  rw [pruned_iff_uuid]
  constructor
  · intro hp
    obtain ⟨_, q, uuid, hq, _, hku, hqu⟩ := hp
    obtain rfl : key = uuid := Option.some.inj (h.symm.trans hku)
    exact outranks_of_before hn hkey hq hqu
  · intro hout
    obtain ⟨q, hq, hqc, hqu⟩ := before_of_outranks hn hout
    exact ⟨clear_grandchild hn.sound snapshot hne key, q, key, hq, hqc, h, hqu⟩

/-! ## What is stored -/

/-- What is stored of a machine that was not down and whose children are nowhere else. -/
theorem arrived_of_kept (hrolled : snapshot.rollup = snapshot)
    (hup : n.alive? snapshot.uuid ≠ some false)
    (hkept : ∀ e ∈ snapshot.children, n.outranks snapshot.uuid e.2.uuid = false) (now : Int) :
    arrived n snapshot now = { snapshot with lastUpdate := now, disabled := [] } := by
  have hchildren : snapshot.children.filter (fun e => !n.outranks snapshot.uuid e.2.uuid)
      = snapshot.children :=
    List.filter_eq_self.mpr fun e he => by rw [hkept e he]; rfl
  obtain ⟨hbelow, hstatus⟩ := rollup_eq_self_iff.mp hrolled
  rw [arrived, if_neg hup, hchildren]
  exact rollup_eq_self_iff.mpr ⟨hbelow, hstatus⟩

theorem down_iff {uuid : String} :
    (Keyed.find? uuid n.children).any (fun old => !old.isAlive) = true ↔
      n.alive? uuid = some false := by
  rw [alive?]
  cases Keyed.find? uuid n.children with
  | none => simp
  | some c => simp

/-- The records below the root of a snapshot as it is stored. -/
theorem own?_arrived_cons (hs : Keyed.Ordered snapshot.children) (now : Int) (path : List String) :
    own? (key :: path) (arrived n snapshot now) =
      ((Keyed.find? key snapshot.children).filter
        (fun c => !n.outranks snapshot.uuid c.uuid)).bind (own? path) := by
  have hfilter := Keyed.find?_filter hs (fun c => !n.outranks snapshot.uuid c.uuid) key
  rw [arrived, own?_rollup, own?_cons]
  exact congrArg (fun c => Option.bind c (own? path)) hfilter

/-- The records below the root of a snapshot that was merged. -/
theorem own?_merged_below (hn : n.InOrder) (hnormal : snapshot.normalize = snapshot)
    (now : Int) (key : String) (path : List String) :
    (Survives (some snapshot.uuid) (joined n snapshot) (snapshot.uuid :: key :: path) →
      own? (snapshot.uuid :: key :: path) (merged n snapshot now) = own? (key :: path) snapshot) ∧
    (¬ Survives (some snapshot.uuid) (joined n snapshot) (snapshot.uuid :: key :: path) →
      own? (snapshot.uuid :: key :: path) (merged n snapshot now) = none) := by
  have hmerged := @own?_merged n snapshot hn now (snapshot.uuid :: key :: path)
  rwa [own?_joined_newcomer, hnormal, funext (dated_of_ne (by simp) now), Option.map_id_fun']
    at hmerged

theorem own?_merged_of_none (hn : n.InOrder) (hnormal : snapshot.normalize = snapshot)
    (now : Int) {path : List String} (h : own? (key :: path) snapshot = none) :
    own? (snapshot.uuid :: key :: path) (merged n snapshot now) = none := by
  obtain ⟨hkept, hgone⟩ := own?_merged_below hn hnormal now key path
  by_cases hs : Survives (some snapshot.uuid) (joined n snapshot) (snapshot.uuid :: key :: path)
  · exact (hkept hs).trans h
  · exact hgone hs

theorem own?_merged_grandchild (hn : n.Coherent) (hne : snapshot.uuid ≠ n.uuid)
    (hnormal : snapshot.normalize = snapshot)
    (hdistinct : ∀ e ∈ snapshot.children, e.1 ≠ snapshot.uuid) (now : Int) :
    own? [snapshot.uuid, key] (merged n snapshot now) = own? [key] (arrived n snapshot now) := by
  have hsound : snapshot.Everywhere Sound := hnormal ▸ normalize_sound snapshot
  rw [own?_arrived_cons hsound.inOrder.ordered]
  cases hc : Keyed.find? key snapshot.children with
  | none =>
    refine own?_merged_of_none hn.sound.inOrder hnormal now ?_
    rw [own?_cons, hc]
    rfl
  | some c =>
    have hmem := Keyed.mem_of_find? hc
    have hkey := ((everywhere_iff.mp hsound).1.filed _ hmem).1
    have hsome : own? [key] snapshot = some c.toNodeInfo.own := by
      rw [own?_cons, hc]
      rfl
    have huuid : uuid? [snapshot.uuid, key] (joined n snapshot) = some key := by
      rw [uuid?_eq_own?, own?_joined_newcomer, hnormal, hsome]
      exact congrArg some hkey.symm
    have hiff := pruned_grandchild_iff hn hne (hdistinct _ hmem) huuid
    have hclear := clear_grandchild hn.sound snapshot hne key
    obtain ⟨hkept, hgone⟩ := own?_merged_below hn.sound.inOrder hnormal now key []
    rw [Option.filter_some, ← hkey]
    cases hout : n.outranks snapshot.uuid key with
    | false =>
      have hs : Survives (some snapshot.uuid) (joined n snapshot) [snapshot.uuid, key] :=
        survives_iff.mpr ⟨hclear, fun hp => by rw [hiff, hout] at hp; cases hp⟩
      rw [hkept hs, hsome]
      rfl
    | true => exact hgone fun hs => (survives_iff.mp hs).2 (hiff.mpr hout)

/-- The record of a snapshot's own machine, as it is stored. -/
theorem dated_arrived (hnormal : snapshot.normalize = snapshot) (henabled : snapshot.disabled = [])
    (now : Int) : dated n snapshot now [snapshot.uuid] snapshot.normalize.toNodeInfo.own =
      (arrived n snapshot now).toNodeInfo.own := by
  rw [dated, if_pos rfl, hnormal, arrived, rollup_own]
  simp only [down_iff, NodeInfo.own, henabled]

theorem arrived_inOrder (hs : snapshot.InOrder) (now : Int) : (arrived n snapshot now).InOrder := by
  refine Everywhere.rollup stable_ordered (everywhere_iff.mpr ⟨?_, fun e he => ?_⟩)
  · exact List.Pairwise.filter _ hs.ordered
  · exact (everywhere_iff.mp hs).2 e (List.mem_of_mem_filter he)

/-- The records of a snapshot of a machine and its children, as they are stored. -/
theorem own?_merged_shallow (hn : n.Coherent) (hne : snapshot.uuid ≠ n.uuid)
    (hnormal : snapshot.normalize = snapshot) (henabled : snapshot.disabled = [])
    (hdistinct : ∀ e ∈ snapshot.children, e.1 ≠ snapshot.uuid)
    (hleaves : ∀ e ∈ snapshot.children, e.2.children = []) (now : Int) (path : List String) :
    own? (snapshot.uuid :: path) (merged n snapshot now) = own? path (arrived n snapshot now) := by
  have hsound : snapshot.Everywhere Sound := hnormal ▸ normalize_sound snapshot
  match path with
  | [] =>
    rw [own?_merged_newcomer hn.sound hne now, dated_arrived hnormal henabled]
    rfl
  | [key] => exact own?_merged_grandchild hn hne hnormal hdistinct now
  | key :: k :: rest =>
    have hleaf : ∀ child, Keyed.find? key snapshot.children = some child →
        own? (k :: rest) child = none := by
      intro child hchild
      rw [own?_cons, hleaves _ (Keyed.mem_of_find? hchild)]
      rfl
    rw [own?_arrived_cons hsound.inOrder.ordered, own?_merged_of_none hn.sound.inOrder hnormal]
    · symm
      rw [Option.bind_eq_none_iff]
      intro child hchild
      exact hleaf child (Option.filter_eq_some_iff.mp hchild).1
    · rw [own?_cons, Option.bind_eq_none_iff]
      exact hleaf

/-- What a merge stores of a snapshot of a machine and its children. -/
theorem find?_merged_shallow (hn : n.Coherent) (hid : snapshot.uuid ≠ "")
    (hne : snapshot.uuid ≠ n.uuid) (hnormal : snapshot.normalize = snapshot)
    (henabled : snapshot.disabled = [])
    (hdistinct : ∀ e ∈ snapshot.children, e.1 ≠ snapshot.uuid)
    (hleaves : ∀ e ∈ snapshot.children, e.2.children = []) (now : Int) :
    Keyed.find? snapshot.uuid (merged n snapshot now).children = some (arrived n snapshot now) := by
  have hcoherent := merged_coherent hn hid hne now
  have hsound : snapshot.Everywhere Sound := hnormal ▸ normalize_sound snapshot
  have hsame := own?_merged_shallow hn hne hnormal henabled hdistinct hleaves now
  obtain ⟨c, hc, _⟩ := Option.bind_eq_some_iff.mp ((own?_cons _ _ _).symm.trans (hsame []))
  have hat : at? [snapshot.uuid] (merged n snapshot now) = some c :=
    at?_cons_eq_some.mpr ⟨c, hc, rfl⟩
  have hpath : ∀ path, own? path c = own? path (arrived n snapshot now) := by
    intro path
    rw [← hsame, own?_cons, hc]
    rfl
  calc Keyed.find? snapshot.uuid (merged n snapshot now).children
      = some c.rollup := hc.trans (congrArg some (rollup_at? hcoherent.rolled hat).symm)
    _ = some (arrived n snapshot now).rollup := congrArg some
        (rollup_congr (hcoherent.sound.inOrder.child hc) (arrived_inOrder hsound.inOrder now) hpath)
    _ = some (arrived n snapshot now) := congrArg some (rollup_rollup _)

end Node
end FleetMesh
