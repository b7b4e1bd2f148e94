/-
Snapshots that are normalized.

`normalize` takes any tree, whatever keys and statuses it states, and gives one
that is sound at every node (`normalize_sound`): the children stand in key order,
each under its own identifier, and the status of every host is that of its worst
reading.  A tree that is sound, rolled up and named is left as it is
(`normalize_eq_self`).
-/
import FleetMesh.Proofs.Tree.Rollup

namespace FleetMesh

/-- The status of a host is the greatest of its readings. -/
theorem Host.worst_eq_max? (statuses : List Int) :
    Host.worst statuses = statuses.max?.getD Status.ok := by
  cases statuses with
  | nil => rfl
  | cons s rest =>
    rw [List.max?_cons']
    rfl

namespace Node

/-- What a node owes to its table of children and to its own readings. -/
structure Sound (n : Node) : Prop where
  ordered : Keyed.Ordered n.children
  /-- Each child stands under its own identifier, and has one. -/
  filed : ∀ e ∈ n.children, e.1 = e.2.uuid ∧ e.2.uuid ≠ ""
  rated : n.localHost.rate = n.localHost

theorem stable_sound : Stable Sound := by
  intro m' m h hm
  have hfiled : ∀ l ∈ labels m, l.1 = l.2.uuid ∧ l.2.uuid ≠ "" := by
    intro l hl
    rw [labels, List.mem_map] at hl
    obtain ⟨e, he, rfl⟩ := hl
    exact hm.filed e he
  have hhost : m'.localHost = m.localHost := by
    show m'.toNodeInfo.own.localHost = m.toNodeInfo.own.localHost
    rw [h.own]
  refine ⟨stable_ordered m' m h hm.ordered, fun e he => ?_, ?_⟩
  · have hl : (e.1, e.2.toNodeInfo.own) ∈ labels m' := List.mem_map.mpr ⟨e, he, rfl⟩
    exact hfiled _ (h.labels.subset hl)
  · rw [hhost]
    exact hm.rated

theorem Everywhere.inOrder {n : Node} (h : n.Everywhere Sound) : n.InOrder :=
  fun m hm => (h m hm).ordered

theorem host_rate_rate (h : Host) : h.rate.rate = h.rate := rfl

theorem normalize_eq (n : Node) :
    normalize n = rollup ⟨{ n.toNodeInfo with
      hostname := if n.hostname = "" then n.localHost.name else n.hostname
      localHost := n.localHost.rate }, normalizeAll n.children []⟩ := by
  obtain ⟨info, children⟩ := n
  rw [normalize]

theorem normalize_uuid (n : Node) : (normalize n).uuid = n.uuid := by
  rw [normalize_eq, rollup_uuid]

theorem mem_normalizeAll {children done : List (String × Node)} {e : String × Node}
    (he : e ∈ normalizeAll children done) :
    e ∈ done ∨ ∃ d ∈ children, e.2 = d.2.normalize := by
  induction children generalizing done with
  | nil =>
    rw [normalizeAll] at he
    exact Or.inl he
  | cons d rest ih =>
    obtain ⟨key, child⟩ := d
    rw [normalizeAll] at he
    rcases ih he with he | ⟨d, hd, he⟩
    · split at he
      · exact Or.inl he
      · rcases Keyed.mem_insert he with rfl | he
        · exact Or.inr ⟨(key, child), List.mem_cons_self, rfl⟩
        · exact Or.inl he
    · exact Or.inr ⟨d, List.mem_cons_of_mem _ hd, he⟩

/-- Children that can stand in a table. -/
def Shelved (table : List (String × Node)) : Prop :=
  Keyed.Ordered table ∧ ∀ e ∈ table, (e.1 = e.2.uuid ∧ e.2.uuid ≠ "") ∧ e.2.Everywhere Sound

theorem shelved_insert {table : List (String × Node)} (h : Shelved table) (child : Node)
    (hid : child.uuid ≠ "") (hc : child.Everywhere Sound) :
    Shelved (Keyed.insert child.uuid child table) := by
  refine ⟨Keyed.ordered_insert h.1 _ _, fun e he => ?_⟩
  rcases Keyed.mem_insert he with rfl | he
  · exact ⟨⟨rfl, hid⟩, hc⟩
  · exact h.2 e he

theorem normalizeAll_shelved {children : List (String × Node)}
    (hc : ∀ e ∈ children, e.2.normalize.Everywhere Sound) {done : List (String × Node)}
    (hd : Shelved done) : Shelved (normalizeAll children done) := by
  induction children generalizing done with
  | nil => rw [normalizeAll]; exact hd
  | cons e rest ih =>
    obtain ⟨key, child⟩ := e
    rw [normalizeAll]
    refine ih (fun e he => hc e (List.mem_cons_of_mem _ he)) ?_
    split
    · exact hd
    · rename_i hid
      have hins := shelved_insert hd child.normalize (by rw [normalize_uuid]; exact hid)
        (hc (key, child) List.mem_cons_self)
      rw [normalize_uuid] at hins
      exact hins

theorem normalize_sound (n : Node) : n.normalize.Everywhere Sound := by
  induction n using induct with
  | step n ih =>
    have hs : Shelved (normalizeAll n.children []) :=
      normalizeAll_shelved ih ⟨List.Pairwise.nil, fun e he => absurd he List.not_mem_nil⟩
    rw [normalize_eq]
    refine Everywhere.rollup stable_sound (everywhere_iff.mpr ⟨?_, fun e he => (hs.2 e he).2⟩)
    exact ⟨hs.1, fun e he => (hs.2 e he).1, rfl⟩

/-! ## Trees that are normal -/

/-- Whether normalizing would find a hostname. -/
def Named (n : Node) : Prop := n.hostname = "" → n.localHost.name = ""

theorem stable_named : Stable Named := by
  intro m' m h hm
  have hname : m'.hostname = m.hostname := congrArg (fun info => info.hostname) h.own
  have hhost : m'.localHost = m.localHost := congrArg (fun info => info.localHost) h.own
  rw [Named, hname, hhost]
  exact hm

theorem normalizeAll_eq {children : List (String × Node)}
    (h : ∀ e ∈ children, e.1 = e.2.uuid ∧ e.2.uuid ≠ "" ∧ e.2.normalize = e.2)
    (done : List (String × Node)) : normalizeAll children done =
      children.foldl (fun table e => Keyed.insert e.1 e.2 table) done := by
  induction children generalizing done with
  | nil => rw [normalizeAll, List.foldl_nil]
  | cons e rest ih =>
    obtain ⟨key, child⟩ := e
    obtain ⟨⟨hkey, hid, hchild⟩, hrest⟩ := List.forall_mem_cons.mp h
    rw [normalizeAll, if_neg hid, hchild, ih hrest, List.foldl_cons, ← hkey]

/-- Normalizing a normal tree finds nothing to do. -/
theorem normalize_eq_self {n : Node} (hsound : n.Everywhere Sound) (hrolled : n.rollup = n)
    (hnamed : n.Everywhere Named) : n.normalize = n := by
  induction n using induct with
  | step n ih =>
    obtain ⟨hroot, hbelow⟩ := everywhere_iff.mp hsound
    obtain ⟨hname, hnames⟩ := everywhere_iff.mp hnamed
    have hchildren := Keyed.mapValues_eq_self_iff.mp (rollup_eq_self_iff.mp hrolled).1
    have hall : normalizeAll n.children [] = n.children := by
      refine (normalizeAll_eq (fun e he => ?_) []).trans (Keyed.ofList_of_ordered hroot.ordered)
      obtain ⟨hkey, hid⟩ := hroot.filed e he
      exact ⟨hkey, hid, ih e he (hbelow e he) (hchildren e he) (hnames e he)⟩
    have hhostname : (if n.hostname = "" then n.localHost.name else n.hostname) = n.hostname := by
      split
      · rename_i hempty
        rw [hname hempty, hempty]
      · rfl
    rw [normalize_eq, hall, hhostname, hroot.rated]
    cases n
    exact hrolled

theorem normalize_named (n : Node) : n.normalize.Everywhere Named := by
  induction n using induct with
  | step n ih =>
    rw [normalize_eq]
    refine Everywhere.rollup stable_named (everywhere_iff.mpr ⟨?_, fun e he => ?_⟩)
    · show (if n.hostname = "" then n.localHost.name else n.hostname) = "" → n.localHost.name = ""
      split
      · exact id
      · rename_i hname
        exact fun h => absurd h hname
    · rcases mem_normalizeAll he with he | ⟨d, hd, he⟩
      · exact absurd he List.not_mem_nil
      · exact he ▸ ih d hd

end Node
end FleetMesh
