/-
Merging a snapshot again.

A second merge puts back what the first one pruned from the snapshot, and finds it
pruned again: the tree it searches is `Reduced` from the tree that the first one
searched (`reduced_joined`).  So it leaves the tree of the first merge, save that
the snapshot is dated anew (`merged_again`), and reports nothing, because a
snapshot does not differ from itself at another date.
-/
import FleetMesh.Proofs.Diff
import FleetMesh.Proofs.Duplicates.Reduced
import FleetMesh.Proofs.Mesh

namespace FleetMesh
namespace Node

variable {n incoming : Node} {newcomer : Option String} {now later : Int} {key : String}

/-! ## The children of the root -/

theorem uuid_of_child (hn : n.Everywhere Sound) {uuid : String} (h : uuid? [key] n = some uuid) :
    uuid = key := by
  obtain ⟨c, hc, rfl⟩ := uuid?_eq_some.mp h
  obtain ⟨d, hd, hc⟩ := at?_cons_eq_some.mp hc
  obtain rfl := Option.some.inj hc
  exact ((everywhere_iff.mp hn).1.filed _ (Keyed.mem_of_find? hd)).1.symm

theorem uuid?_setChild (n child : Node) (key other : String) (path : List String) :
    uuid? (other :: path) (n.setChild key child) =
      if key = other then uuid? path child else uuid? (other :: path) n := by
  rw [uuid?, at?_setChild]
  split <;> rfl

/-- Children under their own identifiers have nothing before them but the root. -/
theorem survives_child (hfiled : ∀ k uuid, uuid? [k] n = some uuid → uuid = k)
    (hkey : key ≠ n.uuid) : Survives newcomer n [key] := by
  refine survives_iff.mpr ⟨clear_append.mpr ⟨clear_nil, not_pruned_nil⟩, fun hp => ?_⟩
  obtain ⟨_, q, uuid, hq, _, hku, hqu⟩ := pruned_iff_uuid.mp hp
  obtain rfl := hfiled key uuid hku
  have hlen := before_length hq
  match q with
  | [] => exact hkey (Option.some.inj hqu).symm
  | [k] =>
    obtain rfl := hfiled k uuid hqu
    exact before_irrefl _ hq
  | _ :: _ :: _ => exact absurd hlen (by simp)

theorem filed_joined (hn : n.Everywhere Sound) (k uuid : String)
    (h : uuid? [k] (joined n incoming) = some uuid) : uuid = k := by
  rw [joined, uuid?_setChild] at h
  split at h
  · rename_i hk
    have hid : incoming.normalize.uuid = uuid := Option.some.inj h
    rw [← hid, normalize_uuid, hk]
  · exact uuid_of_child hn h

/-- A merge keeps the children of the root, and changes the newcomer's record only. -/
theorem own?_merged_child (hn : n.Everywhere Sound) (now : Int) (hkey : key ≠ n.uuid) :
    own? [key] (merged n incoming now) =
      (own? [key] (joined n incoming)).map (dated n incoming now [key]) :=
  (own?_merged hn.inOrder now [key]).1 (survives_child (filed_joined hn) hkey)

theorem own?_joined_newcomer (path : List String) :
    own? (incoming.uuid :: path) (joined n incoming) = own? path incoming.normalize := by
  rw [joined, own?_setChild, if_pos rfl]

theorem own?_joined_of_ne (h : incoming.uuid ≠ key) (path : List String) :
    own? (key :: path) (joined n incoming) = own? (key :: path) n := by
  rw [joined, own?_setChild, if_neg h]

/-- Putting the snapshot in changes nothing elsewhere. -/
theorem own?_joined_elsewhere {p : List String} (hp : ¬ [incoming.uuid] <+: p) :
    own? p (joined n incoming) = own? p n := by
  cases p with
  | nil => rfl
  | cons k path => exact own?_joined_of_ne (fun he => hp (he ▸ ⟨path, rfl⟩)) path

/-! ## The second search -/

theorem uuid?_merged_eq (hn : n.InOrder) (now : Int) (p : List String) :
    uuid? p (merged n incoming now) = uuid? p (joined n incoming) ∨
      uuid? p (merged n incoming now) = none ∧
        ¬ Survives (some incoming.uuid) (joined n incoming) p := by
  have hown := @own?_merged n incoming hn now p
  rw [uuid?_eq_own?]
  by_cases hs : Survives (some incoming.uuid) (joined n incoming) p
  · rw [hown.1 hs, ← own?_placed, ← uuid?_eq_own?, uuid?_placed]
    exact Or.inl rfl
  · rw [hown.2 hs]
    exact Or.inr ⟨rfl, hs⟩

/-- The second merge searches what the first one searched, without what the first
one removed outside the snapshot. -/
theorem reduced_joined (hn : n.InOrder) (now : Int) :
    Reduced (some incoming.uuid) (joined n incoming) (joined (merged n incoming now) incoming) := by
  intro p
  cases p with
  | nil => exact Or.inl ((uuid?_merged_eq hn now []).resolve_right fun h => h.2 survives_nil)
  | cons k path =>
    by_cases hk : incoming.uuid = k
    · refine Or.inl ?_
      rw [joined, joined, uuid?_setChild, uuid?_setChild, if_pos hk, if_pos hk]
    · have hsame : uuid? (k :: path) (joined (merged n incoming now) incoming)
          = uuid? (k :: path) (merged n incoming now) := by
        rw [joined, uuid?_setChild, if_neg hk]
      rw [hsame]
      exact uuid?_merged_eq hn now (k :: path)

/-! ## The second tree -/

/-- A node as it was merged at another date. -/
def stamped (date : Int) (c : Node) : Node := { c with lastUpdate := date }

theorem modifyAt_child (f : Node → Node) (key : String) (n : Node) :
    n.modifyAt f [key] = { n with children := Keyed.modify key f n.children } := rfl

theorem rollup_stamped (date : Int) (c : Node) : (c.stamped date).rollup = c.rollup.stamped date := by
  rw [rollup_eq, rollup_eq]
  rfl

theorem own?_modifyAt_stamped (n : Node) (date : Int) (p : List String) :
    own? p (n.modifyAt (stamped date) [key]) =
      (own? p n).map (fun info => if p = [key] then { info with lastUpdate := date } else info) := by
  rw [modifyAt_child]
  cases p with
  | nil => rfl
  | cons k path =>
    rw [own?_cons, own?_cons, Keyed.find?_modify]
    by_cases hk : key = k
    · subst hk
      rw [if_pos rfl]
      cases Keyed.find? key n.children with
      | none => rfl
      | some c =>
        cases path with
        | nil => exact congrArg some (if_pos rfl).symm
        | cons j path =>
          have hne : ¬ key :: j :: path = [key] := by simp
          simp only [hne, if_false, Option.map_id']
          rfl
    · have hne : ¬ k :: path = [key] := fun h => hk (List.cons.inj h).1.symm
      simp only [hk, hne, if_false, Option.map_id']

/-! ### A child changed in place -/

theorem inOrder_modifyAt_child {f : Node → Node} (hf : ∀ c : Node, c.InOrder → (f c).InOrder)
    (hn : n.InOrder) (key : String) : (n.modifyAt f [key]).InOrder := by
  obtain ⟨hroot, hchildren⟩ := everywhere_iff.mp hn
  refine everywhere_iff.mpr ⟨?_, fun e he => ?_⟩
  · show Keyed.Ordered (Keyed.modify key f n.children)
    rw [Keyed.ordered_iff_keys, Keyed.keys_modify, ← Keyed.ordered_iff_keys]
    exact hroot
  · rcases Keyed.mem_modify he with he | ⟨c, hc, hf'⟩
    · exact hchildren e he
    · rw [hf']
      exact hf c (hchildren _ hc)

/-- What leaves the global status of a child is nothing to those above. -/
theorem rollup_modifyAt_child {f : Node → Node} (hf : ∀ c : Node, (f c).rollup = f c.rollup)
    (hstatus : ∀ c : Node, (f c).globalStatus = c.globalStatus) (h : n.rollup = n) (key : String) :
    (n.modifyAt f [key]).rollup = n.modifyAt f [key] := by
  obtain ⟨hchildren, hworst⟩ := rollup_eq_self_iff.mp h
  have hrolled := Keyed.mapValues_eq_self_iff.mp hchildren
  rw [modifyAt_child]
  refine rollup_eq_self_iff.mpr ⟨Keyed.mapValues_eq_self_iff.mpr fun e he => ?_, ?_⟩
  · rcases Keyed.mem_modify he with he | ⟨c, hc, hf'⟩
    · exact hrolled e he
    · rw [hf', hf, hrolled _ hc]
  · have hstatuses : (Keyed.modify key f n.children).map (fun e => e.2.globalStatus)
        = n.children.map (fun e => e.2.globalStatus) :=
      Keyed.map_modify (g := fun e => e.2.globalStatus) (f := f) (fun _ c => hstatus c)
        key n.children
    have hsame : some (worst (localStatus n.toNodeInfo) (Keyed.modify key f n.children))
        = some (worst (localStatus n.toNodeInfo) n.children) := by
      rw [← worst_eq_max?, ← worst_eq_max?, hstatuses]
    exact (Option.some.inj hsame).trans hworst

theorem inOrder_modifyAt_stamped (hn : n.InOrder) (key : String) (date : Int) :
    (n.modifyAt (stamped date) [key]).InOrder :=
  inOrder_modifyAt_child (f := stamped date) (fun _ hc => Everywhere.root hc hc.ordered rfl) hn key

/-- A date is nothing to the global statuses. -/
theorem rollup_modifyAt_stamped (h : n.rollup = n) (key : String) (date : Int) :
    (n.modifyAt (stamped date) [key]).rollup = n.modifyAt (stamped date) [key] :=
  rollup_modifyAt_child (rollup_stamped date) (fun _ => rfl) h key

/-! ## The two merges -/

theorem dated_of_ne {p : List String} (hp : p ≠ [incoming.uuid]) (now : Int) (info : NodeInfo) :
    dated n incoming now p info = info := if_neg hp

theorem merged_coherent (h : n.Coherent) (hid : incoming.uuid ≠ "") (hne : incoming.uuid ≠ n.uuid)
    (now : Int) : (merged n incoming now).Coherent := by
  obtain ⟨events, he⟩ := merge_eq hid hne now
  have hmerge := coherent_merge h incoming now
  rwa [he] at hmerge

theorem merged_uuid (hn : n.InOrder) (now : Int) : (merged n incoming now).uuid = n.uuid :=
  Option.some.inj ((uuid?_merged hn now).mpr ⟨rfl, survives_nil⟩)

/-- The root is no child of itself. -/
theorem own?_self (h : n.Coherent) : own? [n.uuid] n = none := by
  cases hchild : own? [n.uuid] n with
  | none => rfl
  | some info =>
    have huuid : uuid? [n.uuid] n = some info.uuid := by
      rw [uuid?_eq_own?, hchild]
      rfl
    rw [uuid_of_child h.sound huuid] at huuid
    have hnil : [] = [n.uuid] := h.distinct [] [n.uuid] n.uuid rfl huuid
    cases hnil

/-- A merge leaves the record of a child that it is not of. -/
theorem own?_merge_of_ne (h : n.Coherent) (now : Int) (hne : incoming.uuid ≠ key) :
    own? [key] (n.merge incoming now).1 = own? [key] n := by
  by_cases hrefused : incoming.uuid = "" ∨ incoming.uuid = n.uuid
  · rw [merge_of_refused hrefused]
  obtain ⟨hid, hself⟩ := not_or.mp hrefused
  obtain ⟨events, he⟩ := merge_eq hid hself now
  have hmerged := merged_coherent h hid hself now
  rw [he]
  show own? [key] (merged n incoming now) = own? [key] n
  by_cases hkey : key = n.uuid
  · rw [hkey, own?_self h, ← @merged_uuid n incoming h.sound.inOrder now, own?_self hmerged]
  · have hpath : [key] ≠ [incoming.uuid] := fun e => hne (List.cons.inj e).1.symm
    rw [own?_merged_child h.sound now hkey, own?_joined_of_ne hne, funext (dated_of_ne hpath now)]
    exact Option.map_id_apply

/-- The record under the snapshot's identifier after a merge. -/
theorem own?_merged_newcomer (hn : n.Everywhere Sound) (hne : incoming.uuid ≠ n.uuid) (now : Int) :
    own? [incoming.uuid] (merged n incoming now) =
      some (dated n incoming now [incoming.uuid] incoming.normalize.toNodeInfo.own) := by
  rw [own?_merged_child hn now hne, own?_joined_newcomer]
  rfl

theorem any_child (n : Node) (key : String) (flag : NodeInfo → Bool)
    (hflag : ∀ info, flag info.own = flag info) :
    (Keyed.find? key n.children).any (fun c => flag c.toNodeInfo) = (own? [key] n).any flag := by
  rw [own?_cons]
  cases Keyed.find? key n.children with
  | none => rfl
  | some c => exact (hflag c.toNodeInfo).symm

/-- A snapshot that is dated twice keeps the second date, and is held down by the
first merge if it is by the second. -/
theorem dated_again (hn : n.Everywhere Sound) (hne : incoming.uuid ≠ n.uuid) (now later : Int) :
    dated (merged n incoming now) incoming later [incoming.uuid] incoming.normalize.toNodeInfo.own =
      { dated n incoming now [incoming.uuid] incoming.normalize.toNodeInfo.own with
        lastUpdate := later } := by
  have hdown := any_child (merged n incoming now) incoming.uuid (fun info => !info.isAlive)
    (fun _ => rfl)
  rw [own?_merged_newcomer hn hne now, Option.any_some] at hdown
  rw [dated, if_pos rfl, hdown, dated, if_pos rfl]
  cases (Keyed.find? incoming.uuid n.children).any (fun old => !old.isAlive) with
  | true => rfl
  | false => cases hup : incoming.normalize.toNodeInfo.own.isAlive <;> simp

theorem own?_merged_eq_some (hn : n.InOrder) (now : Int) {p : List String} {info : NodeInfo} :
    own? p (merged n incoming now) = some info ↔
      Survives (some incoming.uuid) (joined n incoming) p ∧
        ∃ i, own? p (joined n incoming) = some i ∧ dated n incoming now p i = info := by
  have hown := @own?_merged n incoming hn now p
  by_cases hs : Survives (some incoming.uuid) (joined n incoming) p
  · rw [hown.1 hs, Option.map_eq_some_iff]
    exact ⟨fun h => ⟨hs, h⟩, fun h => h.2⟩
  · rw [hown.2 hs]
    exact ⟨fun h => (Option.some_ne_none _ h.symm).elim, fun h => absurd h.1 hs⟩

/-- What the second merge finds survives it if it survived the first. -/
theorem survives_again (hn : n.InOrder) {p : List String} {info : NodeInfo}
    (h : own? p (joined (merged n incoming now) incoming) = some info) :
    Survives (some incoming.uuid) (joined (merged n incoming now) incoming) p ↔
      Survives (some incoming.uuid) (joined n incoming) p := by
  have huuid : uuid? p (joined (merged n incoming now) incoming) = some info.uuid := by
    rw [uuid?_eq_own?, h]
    rfl
  exact survives_reduced (reduced_joined hn now) huuid

/-- Within the snapshot both merges start from the same records, and the second
one's are the first one's at the later date. -/
theorem own?_again_within (h : n.Coherent) (hid : incoming.uuid ≠ "") (hne : incoming.uuid ≠ n.uuid)
    (now later : Int) (path : List String) :
    own? (incoming.uuid :: path) (merged (merged n incoming now) incoming later) =
      own? (incoming.uuid :: path)
        ((merged n incoming now).modifyAt (stamped later) [incoming.uuid]) := by
  have hn := h.sound.inOrder
  have hfirst := (merged_coherent h hid hne now).sound.inOrder
  have hjoined : own? (incoming.uuid :: path) (joined (merged n incoming now) incoming)
      = own? (incoming.uuid :: path) (joined n incoming) :=
    (own?_joined_newcomer path).trans (own?_joined_newcomer path).symm
  have hdated : ∀ i, own? (incoming.uuid :: path) (joined n incoming) = some i →
      dated (merged n incoming now) incoming later (incoming.uuid :: path) i =
        if incoming.uuid :: path = [incoming.uuid] then
          { dated n incoming now (incoming.uuid :: path) i with lastUpdate := later }
        else dated n incoming now (incoming.uuid :: path) i := by
    intro i hi
    cases path with
    | nil =>
      rw [own?_joined_newcomer] at hi
      obtain rfl := Option.some.inj hi
      rw [if_pos rfl]
      exact dated_again h.sound hne now later
    | cons k path =>
      have hlong : incoming.uuid :: k :: path ≠ [incoming.uuid] := by simp
      rw [dated_of_ne hlong, dated_of_ne hlong, if_neg hlong]
  ext info
  rw [own?_modifyAt_stamped, Option.map_eq_some_iff, own?_merged_eq_some hfirst]
  constructor
  · intro hsecond
    obtain ⟨hs, i, hi, rfl⟩ := hsecond
    have hs' := (survives_again hn hi).mp hs
    rw [hjoined] at hi
    exact ⟨_, (own?_merged_eq_some hn now).mpr ⟨hs', i, hi, rfl⟩, (hdated i hi).symm⟩
  · intro hstamped
    obtain ⟨j, hj, rfl⟩ := hstamped
    obtain ⟨hs, i, hi, rfl⟩ := (own?_merged_eq_some hn now).mp hj
    have hi' := hjoined.trans hi
    exact ⟨(survives_again hn hi').mpr hs, i, hi', hdated i hi⟩

/-- Outside the snapshot the second merge starts from what the first one left, and
leaves it. -/
theorem own?_again_outside (h : n.Coherent) (hid : incoming.uuid ≠ "")
    (hne : incoming.uuid ≠ n.uuid) (now later : Int) {p : List String}
    (hp : ¬ [incoming.uuid] <+: p) :
    own? p (merged (merged n incoming now) incoming later) =
      own? p ((merged n incoming now).modifyAt (stamped later) [incoming.uuid]) := by
  have hn := h.sound.inOrder
  have hfirst := (merged_coherent h hid hne now).sound.inOrder
  have hne' : p ≠ [incoming.uuid] := fun e => hp (e ▸ List.prefix_refl _)
  have hjoined : own? p (joined (merged n incoming now) incoming)
      = own? p (merged n incoming now) := own?_joined_elsewhere hp
  ext info
  rw [own?_modifyAt_stamped, Option.map_eq_some_iff, own?_merged_eq_some hfirst]
  simp only [dated_of_ne hne', if_neg hne', exists_eq_right]
  constructor
  · intro hsecond
    rw [← hjoined]
    exact hsecond.2
  · intro hsome
    have hs := ((own?_merged_eq_some hn now).mp hsome).1
    rw [← hjoined] at hsome
    exact ⟨(survives_again hn hsome).mpr hs, hsome⟩

theorem own?_merged_again (h : n.Coherent) (hid : incoming.uuid ≠ "")
    (hne : incoming.uuid ≠ n.uuid) (now later : Int) (p : List String) :
    own? p (merged (merged n incoming now) incoming later) =
      own? p ((merged n incoming now).modifyAt (stamped later) [incoming.uuid]) := by
  by_cases hp : [incoming.uuid] <+: p
  · obtain ⟨path, rfl⟩ := hp
    exact own?_again_within h hid hne now later path
  · exact own?_again_outside h hid hne now later hp

theorem merged_again (h : n.Coherent) (hid : incoming.uuid ≠ "") (hne : incoming.uuid ≠ n.uuid)
    (now later : Int) :
    merged (merged n incoming now) incoming later =
      (merged n incoming now).modifyAt (stamped later) [incoming.uuid] := by
  have hfirst := merged_coherent h hid hne now
  calc merged (merged n incoming now) incoming later
      = (merged (merged n incoming now) incoming later).rollup := (rollup_rollup _).symm
    _ = ((merged n incoming now).modifyAt (stamped later) [incoming.uuid]).rollup :=
        rollup_congr (inOrder_merged hfirst.sound.inOrder incoming later)
          (inOrder_modifyAt_stamped hfirst.sound.inOrder _ later)
          (own?_merged_again h hid hne now later)
    _ = (merged n incoming now).modifyAt (stamped later) [incoming.uuid] :=
        rollup_modifyAt_stamped hfirst.rolled _ later

/-! ## The events -/

/-- The events between two snapshots of a child, if there are two. -/
def changed (previous stored : Option Node) : List Event :=
  match previous, stored with
  | some old, some new => diff old new
  | _, _ => []

theorem merge_changed (hid : incoming.uuid ≠ "") (hne : incoming.uuid ≠ n.uuid) (now : Int) :
    n.merge incoming now =
      (merged n incoming now,
        .stored (changed (Keyed.find? incoming.uuid n.children)
            (Keyed.find? incoming.uuid (merged n incoming now).children))
          ((placed n incoming now).prune (some incoming.uuid)).2) := by
  rw [merge, if_neg hid, if_neg hne]
  rfl

/-- The child that a merge stores has the tables of the snapshot. -/
theorem tabled_newcomer (h : n.Coherent) (hid : incoming.uuid ≠ "") (hne : incoming.uuid ≠ n.uuid)
    (ht : incoming.Tabled) {c : Node}
    (hc : Keyed.find? incoming.uuid (merged n incoming now).children = some c) : c.Tabled := by
  have hn := h.sound.inOrder
  have horder := (merged_coherent h hid hne now).sound.inOrder
  intro m hm
  obtain ⟨path, hpath⟩ := (mem_subtree_iff (horder.child hc)).mp hm
  have hown : own? (incoming.uuid :: path) (merged n incoming now) = some m.toNodeInfo.own := by
    rw [own?_cons, hc]
    exact congrArg (Option.map _) hpath
  obtain ⟨_, i, hi, hdated⟩ := (own?_merged_eq_some hn now).mp hown
  rw [own?_joined_newcomer] at hi
  obtain ⟨k, hk, rfl⟩ := Option.map_eq_some_iff.mp hi
  have hreadings : m.localHost.readings = k.localHost.readings := by
    show m.toNodeInfo.own.localHost.readings = _
    rw [← hdated, dated]
    split <;> rfl
  rw [hreadings]
  have hmk : k.Tabled := Everywhere.at? (tabled_normalize ht) hk
  exact hmk.root

/-- A snapshot of `b` with a machine twice in it, `b` itself and the root below it,
readings, and statuses that are not those of its readings. -/
def echoedSnapshot : Node :=
  let readings := [("disk", Reading.plain "disk" Status.critical 2 "full" (.ofUnix 3)),
    ("load", Reading.plain "load" Status.ok 0 "" (.ofUnix 3))]
  { machine "b" [("b", machine "b" []), ("c", machine "c" [("e", machine "e" [])]),
      ("d", machine "d" [("f", { machine "e" [] with globalStatus := 7 }), ("r", machine "r" [])])]
    with localHost := ⟨"b", "", Status.ok, readings⟩ }

end Node

namespace Mesh

/-- A snapshot that is merged again changes the date of its node, and nothing is
reported.  Its tables of readings are in key order, as all tables are. -/
theorem merge_again {m : Mesh} (h : m.Reachable) {incoming : Node} (hid : incoming.uuid ≠ "")
    (hne : incoming.uuid ≠ m.root.uuid) (ht : incoming.Tabled) (now later : Int) :
    Keyed.contains incoming.uuid (m.root.merge incoming now).1.children = true ∧
      ∃ gone, (m.root.merge incoming now).1.merge incoming later =
        ((m.root.merge incoming now).1.modifyAt (Node.stamped later) [incoming.uuid],
          .stored [] gone) := by
  have hc := h.coherent
  have hfirst := Node.merged_coherent hc hid hne now
  have huuid : (Node.merged m.root incoming now).uuid = m.root.uuid :=
    Node.merged_uuid hc.sound.inOrder now
  have hstored := Node.own?_merged_newcomer hc.sound hne now
  rw [Node.own?_cons, Option.bind_eq_some_iff] at hstored
  obtain ⟨c, hfind, _⟩ := hstored
  -- what the second merge compares is the child and the child at another date
  have hsilent : Node.changed (Keyed.find? incoming.uuid (Node.merged m.root incoming now).children)
      (Keyed.find? incoming.uuid ((Node.merged m.root incoming now).modifyAt (Node.stamped later)
        [incoming.uuid]).children) = [] := by
    rw [Node.modifyAt_child, Keyed.find?_modify, if_pos rfl, hfind]
    exact Node.diff_dated (hfirst.sound.inOrder.child hfind)
      (Node.tabled_newcomer hc hid hne ht hfind) later
  rw [Node.merge_changed hid hne now]
  dsimp only
  refine ⟨Keyed.contains_iff.mpr ⟨c, hfind⟩,
    ((Node.merged m.root incoming now).placed incoming later |>.prune (some incoming.uuid)).2, ?_⟩
  rw [Node.merge_changed hid (huuid ▸ hne), Node.merged_again hc hid hne now later, hsilent]

theorem crossedRun_merge_again :
    Node.echoedSnapshot.uuid ≠ "" ∧ Node.echoedSnapshot.uuid ≠ crossedRun.root.uuid ∧
      Node.echoedSnapshot.Tabled ∧
      Keyed.contains "b" (crossedRun.root.merge Node.echoedSnapshot 130).1.children = true ∧
      ∃ gone, (crossedRun.root.merge Node.echoedSnapshot 130).1.merge Node.echoedSnapshot 140 =
        ((crossedRun.root.merge Node.echoedSnapshot 130).1.modifyAt (Node.stamped 140) ["b"],
          .stored [] gone) := by
  have hid : Node.echoedSnapshot.uuid ≠ "" := by decide
  have hne : Node.echoedSnapshot.uuid ≠ crossedRun.root.uuid := by decide
  have ht : Node.echoedSnapshot.Tabled := by decide
  exact ⟨hid, hne, ht, merge_again crossedRun_reachable hid hne ht 130 140⟩

end Mesh
end FleetMesh
