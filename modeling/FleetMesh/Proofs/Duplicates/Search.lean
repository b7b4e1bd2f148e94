/-
The search for duplicates finds what is pruned.

`scanLevel` knows of the positions before its level only by the identifiers it
has seen.  What it does with a level in visiting order is said without that set
in the lemmas on `Repeated`; then a level is all clear positions at one distance
(`Level`), the set is all identifiers at clear positions nearer to the root
(`Known`), and both pass to the next level (`level_succ`, `known_succ`).
-/
import FleetMesh.Node.Merge
import FleetMesh.Proofs.Duplicates.Pruned

namespace FleetMesh
namespace Node

variable {newcomer : Option String}

/-- In visiting order. -/
def Visited (newcomer : Option String) (level : List Placed) : Prop :=
  level.Pairwise (fun x y => Before newcomer x.1 y.1)

/-! ## One level -/

/-- Whether an identifier was seen before a node of a level, or stands earlier in
the level. -/
def Repeated (newcomer : Option String) (seen : List (String × Unit)) (level : List Placed)
    (x : Placed) : Prop :=
  Keyed.contains x.2.uuid seen = true ∨ ∃ y ∈ level, Before newcomer y.1 x.1 ∧ y.2.uuid = x.2.uuid

theorem repeated_head {seen : List (String × Unit)} {x : Placed} {rest : List Placed}
    (hv : Visited newcomer (x :: rest)) :
    Repeated newcomer seen (x :: rest) x ↔ Keyed.contains x.2.uuid seen = true := by
  refine ⟨fun h => ?_, Or.inl⟩
  rcases h with h | ⟨y, hy, hbefore, _⟩
  · exact h
  · rcases List.mem_cons.mp hy with rfl | hy
    · exact absurd hbefore (before_irrefl _)
    · exact absurd hbefore (before_asymm ((List.pairwise_cons.mp hv).1 y hy))

theorem repeated_tail_of_seen {seen : List (String × Unit)} {x y : Placed} {rest : List Placed}
    (hx : Keyed.contains x.2.uuid seen = true) :
    Repeated newcomer seen (x :: rest) y ↔ Repeated newcomer seen rest y := by
  constructor
  · intro h
    rcases h with h | ⟨z, hz, hbefore, hid⟩
    · exact Or.inl h
    · rcases List.mem_cons.mp hz with rfl | hz
      · exact Or.inl (hid ▸ hx)
      · exact Or.inr ⟨z, hz, hbefore, hid⟩
  · intro h
    rcases h with h | ⟨z, hz, h⟩
    · exact Or.inl h
    · exact Or.inr ⟨z, List.mem_cons_of_mem _ hz, h⟩

theorem repeated_tail_of_new {seen : List (String × Unit)} {x y : Placed} {rest : List Placed}
    (hv : Visited newcomer (x :: rest)) (hy : y ∈ rest) :
    Repeated newcomer seen (x :: rest) y ↔
      Repeated newcomer (Keyed.insert x.2.uuid () seen) rest y := by
  rw [Repeated, Repeated, Keyed.contains_insert]
  constructor
  · intro h
    rcases h with h | ⟨z, hz, hbefore, hid⟩
    · exact Or.inl (Or.inr h)
    · rcases List.mem_cons.mp hz with rfl | hz
      · exact Or.inl (Or.inl hid)
      · exact Or.inr ⟨z, hz, hbefore, hid⟩
  · intro h
    rcases h with (h | h) | ⟨z, hz, h⟩
    · exact Or.inr ⟨x, List.mem_cons_self, (List.pairwise_cons.mp hv).1 y hy, h⟩
    · exact Or.inl h
    · exact Or.inr ⟨z, List.mem_cons_of_mem _ hz, h⟩

theorem scanLevel_cons_seen {seen : List (String × Unit)} {x : Placed} (rest : List Placed)
    (h : Keyed.contains x.2.uuid seen = true) :
    scanLevel seen (x :: rest) =
      { scanLevel seen rest with doomed := x :: (scanLevel seen rest).doomed } := by
  obtain ⟨path, n⟩ := x
  rw [scanLevel, if_pos h]

theorem scanLevel_cons_new {seen : List (String × Unit)} {x : Placed} (rest : List Placed)
    (h : ¬ Keyed.contains x.2.uuid seen = true) :
    scanLevel seen (x :: rest) =
      { scanLevel (Keyed.insert x.2.uuid () seen) rest with
        next := placedChildren x.1 x.2 ++
          (scanLevel (Keyed.insert x.2.uuid () seen) rest).next } := by
  obtain ⟨path, n⟩ := x
  rw [scanLevel, if_neg h]

/-- What a level dooms is what is repeated in it, in its order. -/
theorem mem_scanLevel_doomed {seen : List (String × Unit)} {level : List Placed}
    (hv : Visited newcomer level) {y : Placed} :
    y ∈ (scanLevel seen level).doomed ↔ y ∈ level ∧ Repeated newcomer seen level y := by
  induction level generalizing seen with
  | nil => exact ⟨fun h => absurd h List.not_mem_nil, fun h => absurd h.1 List.not_mem_nil⟩
  | cons x rest ih =>
    have hrest : Visited newcomer rest := (List.pairwise_cons.mp hv).2
    by_cases hx : Keyed.contains x.2.uuid seen = true
    · rw [scanLevel_cons_seen rest hx, List.mem_cons, List.mem_cons, ih hrest,
        repeated_tail_of_seen hx]
      constructor
      · intro h
        rcases h with rfl | ⟨hy, hrep⟩
        · exact ⟨Or.inl rfl, Or.inl hx⟩
        · exact ⟨Or.inr hy, hrep⟩
      · intro h
        rcases h with ⟨hy | hy, hrep⟩
        · exact Or.inl hy
        · exact Or.inr ⟨hy, hrep⟩
    · rw [scanLevel_cons_new rest hx, List.mem_cons]
      show y ∈ (scanLevel (Keyed.insert x.2.uuid () seen) rest).doomed ↔ _
      rw [ih hrest]
      constructor
      · intro h
        obtain ⟨hy, hrep⟩ := h
        exact ⟨Or.inr hy, (repeated_tail_of_new hv hy).mpr hrep⟩
      · intro h
        rcases h with ⟨rfl | hy, hrep⟩
        · exact absurd ((repeated_head hv).mp hrep) hx
        · exact ⟨hy, (repeated_tail_of_new hv hy).mp hrep⟩

/-- The next level holds the children of what is not repeated. -/
theorem mem_scanLevel_next {seen : List (String × Unit)} {level : List Placed}
    (hv : Visited newcomer level) {y : Placed} :
    y ∈ (scanLevel seen level).next ↔
      ∃ x ∈ level, ¬ Repeated newcomer seen level x ∧ y ∈ placedChildren x.1 x.2 := by
  induction level generalizing seen with
  | nil => exact ⟨fun h => absurd h List.not_mem_nil, fun ⟨_, h, _⟩ => absurd h List.not_mem_nil⟩
  | cons x rest ih =>
    have hrest : Visited newcomer rest := (List.pairwise_cons.mp hv).2
    by_cases hx : Keyed.contains x.2.uuid seen = true
    · rw [scanLevel_cons_seen rest hx]
      show y ∈ (scanLevel seen rest).next ↔ _
      rw [ih hrest]
      constructor
      · intro h
        obtain ⟨z, hz, hrep, hy⟩ := h
        exact ⟨z, List.mem_cons_of_mem _ hz, fun h => hrep ((repeated_tail_of_seen hx).mp h), hy⟩
      · intro h
        obtain ⟨z, hz, hrep, hy⟩ := h
        rcases List.mem_cons.mp hz with rfl | hz
        · exact absurd (Or.inl hx) hrep
        · exact ⟨z, hz, fun h => hrep ((repeated_tail_of_seen hx).mpr h), hy⟩
    · rw [scanLevel_cons_new rest hx, List.mem_append, ih hrest]
      constructor
      · intro h
        rcases h with hy | ⟨z, hz, hrep, hy⟩
        · exact ⟨x, List.mem_cons_self, fun h => hx ((repeated_head hv).mp h), hy⟩
        · exact ⟨z, List.mem_cons_of_mem _ hz,
            fun h => hrep ((repeated_tail_of_new hv hz).mp h), hy⟩
      · intro h
        obtain ⟨z, hz, hrep, hy⟩ := h
        rcases List.mem_cons.mp hz with rfl | hz
        · exact Or.inl hy
        · exact Or.inr ⟨z, hz, fun h => hrep ((repeated_tail_of_new hv hz).mpr h), hy⟩

/-- A scan leaves the identifiers of its whole level seen. -/
theorem contains_scanLevel_seen (seen : List (String × Unit)) (level : List Placed) (u : String) :
    Keyed.contains u (scanLevel seen level).seen = true ↔
      Keyed.contains u seen = true ∨ ∃ x ∈ level, x.2.uuid = u := by
  induction level generalizing seen with
  | nil => exact ⟨Or.inl, fun h => h.resolve_right fun ⟨_, h, _⟩ => absurd h List.not_mem_nil⟩
  | cons x rest ih =>
    by_cases hx : Keyed.contains x.2.uuid seen = true
    · rw [scanLevel_cons_seen rest hx]
      show Keyed.contains u (scanLevel seen rest).seen = true ↔ _
      rw [ih]
      simp only [List.mem_cons, exists_eq_or_imp]
      constructor
      · intro h
        rcases h with h | h
        · exact Or.inl h
        · exact Or.inr (Or.inr h)
      · intro h
        rcases h with h | h | h
        · exact Or.inl h
        · exact Or.inl (h ▸ hx)
        · exact Or.inr h
    · rw [scanLevel_cons_new rest hx]
      show Keyed.contains u (scanLevel (Keyed.insert x.2.uuid () seen) rest).seen = true ↔ _
      rw [ih, Keyed.contains_insert, or_assoc, or_left_comm]
      simp only [List.mem_cons, exists_eq_or_imp]

theorem scanLevel_doomed_sublist (seen : List (String × Unit)) (level : List Placed) :
    (scanLevel seen level).doomed.Sublist level := by
  induction level generalizing seen with
  | nil => exact List.Sublist.refl []
  | cons x rest ih =>
    by_cases hx : Keyed.contains x.2.uuid seen = true
    · rw [scanLevel_cons_seen rest hx]
      exact (ih seen).cons_cons x
    · rw [scanLevel_cons_new rest hx]
      exact (ih _).cons x

/-! ## Level by level -/

theorem mem_placedChildren {path : List String} {n : Node} {x : Placed} :
    x ∈ placedChildren path n ↔ ∃ e ∈ n.children, x = (path ++ [e.1], e.2) := by
  rw [placedChildren, List.mem_map]
  constructor
  · intro h
    obtain ⟨e, he, rfl⟩ := h
    exact ⟨e, he, rfl⟩
  · intro h
    obtain ⟨e, he, rfl⟩ := h
    exact ⟨e, he, rfl⟩

/-- The children of a node lie at the paths of one more key. -/
theorem mem_placedChildren_iff {path : List String} {n m : Node} (hn : n.InOrder)
    (hm : at? path n = some m) {x : Placed} :
    x ∈ placedChildren path m ↔ ∃ k, x.1 = path ++ [k] ∧ at? x.1 n = some x.2 := by
  have hord : Keyed.Ordered m.children := InOrder.ordered (Everywhere.at? hn hm)
  have hat : ∀ k, at? (path ++ [k]) n = Keyed.find? k m.children := by
    intro k
    rw [at?_append, hm, Option.bind_some, at?_cons]
    cases Keyed.find? k m.children <;> rfl
  rw [mem_placedChildren]
  constructor
  · intro h
    obtain ⟨e, he, rfl⟩ := h
    exact ⟨e.1, rfl, (hat e.1).trans (Keyed.find?_of_mem hord he)⟩
  · intro h
    obtain ⟨k, hk, hx⟩ := h
    rw [hk, hat] at hx
    exact ⟨(k, x.2), Keyed.mem_of_find? hx, Prod.ext hk rfl⟩

/-- A level holds the clear positions at one distance, in visiting order. -/
structure Level (newcomer : Option String) (n : Node) (depth : Nat) (level : List Placed) :
    Prop where
  mem : ∀ x, x ∈ level ↔ x.1.length = depth ∧ at? x.1 n = some x.2 ∧ Clear newcomer n x.1
  visited : Visited newcomer level

/-- The identifiers seen before a level are those at the clear positions nearer to
the root. -/
def Known (newcomer : Option String) (n : Node) (depth : Nat) (seen : List (String × Unit)) :
    Prop :=
  ∀ u, Keyed.contains u seen = true ↔
    ∃ q k, q.length < depth ∧ at? q n = some k ∧ Clear newcomer n q ∧ k.uuid = u

section

variable {n : Node} {depth : Nat} {seen : List (String × Unit)} {level : List Placed}

theorem repeated_iff_pruned (hl : Level newcomer n depth level)
    (hk : Known newcomer n depth seen) {x : Placed} (hx : x ∈ level) :
    Repeated newcomer seen level x ↔ Pruned newcomer n x.1 := by
  obtain ⟨hlen, hm, hclear⟩ := (hl.mem x).mp hx
  constructor
  · intro h
    rcases h with h | ⟨y, hy, hbefore, hid⟩
    · obtain ⟨q, k, hq, hat, hqc, hid⟩ := (hk _).mp h
      exact pruned_of_before hclear hqc hm hat hid (Or.inl (hlen ▸ hq))
    · obtain ⟨_, hat, hyc⟩ := (hl.mem y).mp hy
      exact pruned_of_before hclear hyc hm hat hid hbefore
  · intro h
    obtain ⟨_, q, m, k, hbefore, hqc, hm', hat, hid⟩ := pruned_iff.mp h
    have hid' : k.uuid = x.2.uuid := by
      rw [hid, Option.some.inj (hm'.symm.trans hm)]
    rcases Nat.lt_or_ge q.length depth with hq | hq
    · exact Or.inl ((hk _).mpr ⟨q, k, hq, hat, hqc, hid'⟩)
    · have hq' : q.length = depth := Nat.le_antisymm (hlen ▸ before_length hbefore) hq
      exact Or.inr ⟨(q, k), (hl.mem (q, k)).mpr ⟨hq', hat, hqc⟩, hbefore, hid'⟩

theorem known_succ (hl : Level newcomer n depth level) (hk : Known newcomer n depth seen) :
    Known newcomer n (depth + 1) (scanLevel seen level).seen := by
  intro u
  rw [contains_scanLevel_seen, hk]
  constructor
  · intro h
    rcases h with ⟨q, k, hq, h⟩ | ⟨x, hx, hid⟩
    · exact ⟨q, k, Nat.lt_succ_of_lt hq, h⟩
    · obtain ⟨hlen, hat, hc⟩ := (hl.mem x).mp hx
      exact ⟨x.1, x.2, Nat.lt_succ_of_le (Nat.le_of_eq hlen), hat, hc, hid⟩
  · intro h
    obtain ⟨q, k, hq, hat, hc, hid⟩ := h
    rcases Nat.lt_or_ge q.length depth with hlt | hge
    · exact Or.inl ⟨q, k, hlt, hat, hc, hid⟩
    · have hlen : q.length = depth := Nat.le_antisymm (Nat.lt_succ_iff.mp hq) hge
      exact Or.inr ⟨(q, k), (hl.mem (q, k)).mpr ⟨hlen, hat, hc⟩, hid⟩

theorem mem_next_iff (hn : n.InOrder) (hl : Level newcomer n depth level)
    (hk : Known newcomer n depth seen) (y : Placed) :
    y ∈ (scanLevel seen level).next ↔
      y.1.length = depth + 1 ∧ at? y.1 n = some y.2 ∧ Clear newcomer n y.1 := by
  rw [mem_scanLevel_next hl.visited]
  constructor
  · intro h
    obtain ⟨x, hx, hrep, hy⟩ := h
    obtain ⟨hlen, hm, hc⟩ := (hl.mem x).mp hx
    obtain ⟨k, hpath, hat⟩ := (mem_placedChildren_iff hn hm).mp hy
    refine ⟨by rw [hpath, List.length_append, hlen]; rfl, hat, ?_⟩
    rw [hpath, clear_append]
    exact ⟨hc, fun h => hrep ((repeated_iff_pruned hl hk hx).mpr h)⟩
  · intro h
    obtain ⟨hlen, hat, hc⟩ := h
    obtain ⟨path, k, hpath⟩ : ∃ path k, y.1 = path ++ [k] :=
      ⟨_, _, (List.dropLast_concat_getLast fun e => by rw [e] at hlen; simp at hlen).symm⟩
    obtain ⟨m, hm⟩ := at?_of_above (hpath ▸ List.prefix_append path [k]) hat
    rw [hpath, clear_append] at hc
    have hx : (path, m) ∈ level := by
      refine (hl.mem (path, m)).mpr ⟨?_, hm, hc.1⟩
      rw [hpath, List.length_append, List.length_singleton] at hlen
      exact Nat.succ.inj hlen
    exact ⟨(path, m), hx, fun h => hc.2 ((repeated_iff_pruned hl hk hx).mp h),
      (mem_placedChildren_iff hn hm).mpr ⟨k, hpath, hat⟩⟩

/-- The children of a level that is in visiting order are in visiting order. -/
theorem visited_next (hord : ∀ x ∈ level, Keyed.Ordered x.2.children)
    (hlen : ∀ x ∈ level, x.1.length = depth) (hd : depth ≠ 0) (hv : Visited newcomer level) :
    Visited newcomer (scanLevel seen level).next := by
  induction level generalizing seen with
  | nil => exact List.Pairwise.nil
  | cons x rest ih =>
    have hrest : Visited newcomer rest := (List.pairwise_cons.mp hv).2
    have hordr := fun y hy => hord y (List.mem_cons_of_mem x hy)
    have hlenr := fun y hy => hlen y (List.mem_cons_of_mem x hy)
    by_cases hx : Keyed.contains x.2.uuid seen = true
    · rw [scanLevel_cons_seen rest hx]
      exact ih hordr hlenr hrest
    · rw [scanLevel_cons_new rest hx]
      have hxlen := hlen x List.mem_cons_self
      have hne : x.1 ≠ [] := fun e => hd (by rw [← hxlen, e]; rfl)
      refine List.pairwise_append.mpr ⟨?_, ih hordr hlenr hrest, ?_⟩
      · rw [placedChildren, List.pairwise_map]
        exact List.Pairwise.imp (fun h => before_siblings hne h) (hord x List.mem_cons_self)
      · intro a ha b hb
        obtain ⟨e, _, rfl⟩ := mem_placedChildren.mp ha
        obtain ⟨y, hy, _, hb⟩ := (mem_scanLevel_next hrest).mp hb
        obtain ⟨e', _, rfl⟩ := mem_placedChildren.mp hb
        exact before_children hne (hxlen.trans (hlenr y hy).symm)
          ((List.pairwise_cons.mp hv).1 y hy) e.1 e'.1

theorem level_succ (hn : n.InOrder) (hl : Level newcomer n depth level)
    (hk : Known newcomer n depth seen) (hd : depth ≠ 0) :
    Level newcomer n (depth + 1) (scanLevel seen level).next where
  mem := mem_next_iff hn hl hk
  visited := visited_next
    (fun x hx => InOrder.ordered (Everywhere.at? hn ((hl.mem x).mp hx).2.1))
    (fun x hx => ((hl.mem x).mp hx).1) hd hl.visited

end

end Node
end FleetMesh
