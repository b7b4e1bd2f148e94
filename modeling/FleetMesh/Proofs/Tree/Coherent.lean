/-
The invariant of the tree that all writers share.

A tree is coherent if every node of it is sound, no identifier stands in two
places, and every global status is the one that a rollup would set.  Every change
keeps a coherent tree coherent: a merge because the search for duplicates leaves
one position of each identifier, and the others because they take nodes away, or
change what a node says of itself other than its identifier.
-/
import FleetMesh.Mesh
import FleetMesh.Proofs.Duplicates.Merge

namespace FleetMesh
namespace Node

/-- No identifier stands at two positions. -/
def Distinct (n : Node) : Prop :=
  ∀ p q uuid, uuid? p n = some uuid → uuid? q n = some uuid → p = q

structure Coherent (n : Node) : Prop where
  sound : n.Everywhere Sound
  distinct : n.Distinct
  rolled : n.rollup = n

variable {n n' : Node}

theorem Distinct.of_fewer (h : n.Distinct)
    (hsub : ∀ p uuid, uuid? p n' = some uuid → uuid? p n = some uuid) : n'.Distinct :=
  fun p q uuid hp hq => h p q uuid (hsub p uuid hp) (hsub q uuid hq)

theorem uuid?_rollup (p : List String) (n : Node) : uuid? p n.rollup = uuid? p n := by
  rw [uuid?_eq_own?, uuid?_eq_own?, own?_rollup]

theorem coherent_rollup (hs : n.Everywhere Sound) (hd : n.Distinct) : n.rollup.Coherent where
  sound := hs.rollup stable_sound
  distinct := hd.of_fewer fun p uuid h => by rwa [uuid?_rollup] at h
  rolled := rollup_rollup n

/-! ## Other words at the root -/

theorem sound_root (hn : n.Everywhere Sound) (hc : n'.children = n.children)
    (hrate : n'.localHost.rate = n'.localHost) : n'.Everywhere Sound := by
  obtain ⟨hordered, hfiled, _⟩ := (everywhere_iff.mp hn).1
  exact hn.root ⟨hc ▸ hordered, hc ▸ hfiled, hrate⟩ hc

theorem uuid?_root (hc : n'.children = n.children) (hid : n'.uuid = n.uuid) (p : List String) :
    uuid? p n' = uuid? p n := by
  cases p with
  | nil => exact congrArg some hid
  | cons key path => rw [uuid?_cons, uuid?_cons, hc]

theorem coherent_root (h : n.Coherent) (hc : n'.children = n.children) (hid : n'.uuid = n.uuid)
    (hrate : n'.localHost.rate = n'.localHost) : n'.rollup.Coherent := by
  refine coherent_rollup (sound_root h.sound hc hrate) (h.distinct.of_fewer fun p uuid hp => ?_)
  rwa [uuid?_root hc hid] at hp

theorem coherent_new (uuid hostname group : String) (now : Int) :
    (Node.new uuid hostname group now).Coherent := by
  refine coherent_rollup (everywhere_iff.mpr ⟨⟨List.Pairwise.nil, ?_, rfl⟩, ?_⟩) ?_
  · exact fun e he => absurd he List.not_mem_nil
  · exact fun e he => absurd he List.not_mem_nil
  · intro p q uuid hp hq
    cases p with
    | cons key path => exact nomatch hp
    | nil =>
      cases q with
      | nil => rfl
      | cons key path => exact nomatch hq

theorem coherent_submit (h : n.Coherent) (r : Reading) : (n.submit r).1.Coherent :=
  coherent_root h rfl rfl (host_rate_rate _)

theorem coherent_dropReading (h : n.Coherent) (name : String) :
    (n.dropReading name).1.Coherent := by
  have hrate : (n.localHost.drop name).rate = n.localHost.drop name := by
    rw [Host.drop]
    split
    · exact host_rate_rate _
    · exact (everywhere_iff.mp h.sound).1.rated
  rw [dropReading]
  split
  · exact h
  · exact coherent_root h rfl rfl hrate

theorem coherent_disable (h : n.Coherent) (name : String) : (n.disable name).Coherent where
  sound := sound_root h.sound rfl (everywhere_iff.mp h.sound).1.rated
  distinct := h.distinct.of_fewer fun p uuid hp => by
    have hid : uuid? p (n.disable name) = uuid? p n := uuid?_root (by rfl) (by rfl) p
    rwa [hid] at hp
  rolled := by
    have hrolled := rollup_eq_self_iff.mp h.rolled
    exact rollup_eq_self_iff.mpr hrolled

/-! ## Children taken away or judged -/

theorem dropChild_cases (n : Node) (uuid : String) :
    n.dropChild uuid = n ∨ n.dropChild uuid = (n.eraseAt [uuid]).rollup := by
  rw [dropChild]
  split
  · exact Or.inr rfl
  · exact Or.inl rfl

theorem uuid?_eraseAt (hn : n.InOrder) {path : List String} (hp : path ≠ []) {q : List String}
    {uuid : String} (h : uuid? q (n.eraseAt path) = some uuid) : uuid? q n = some uuid := by
  rw [uuid?_eq_own?] at h ⊢
  by_cases hpre : path <+: q
  · rw [(own?_eraseAt hn hp q).1 hpre] at h
    exact nomatch h
  · rwa [(own?_eraseAt hn hp q).2 hpre] at h

theorem coherent_dropChild (h : n.Coherent) (uuid : String) : (n.dropChild uuid).Coherent := by
  rcases dropChild_cases n uuid with he | he
  · rw [he]
    exact h
  · rw [he]
    exact coherent_rollup (h.sound.eraseAt stable_sound [uuid])
      (h.distinct.of_fewer fun _ _ hp =>
        uuid?_eraseAt h.sound.inOrder (List.cons_ne_nil uuid []) hp)

theorem judge_cases (deadline : Int) (child : Node) :
    (child.judge deadline).1 = child ∨
      ∃ alive, (child.judge deadline).1 = rollup { child with isAlive := alive } := by
  rw [judge]
  split
  · exact Or.inr ⟨false, rfl⟩
  · split
    · exact Or.inr ⟨true, rfl⟩
    · exact Or.inl rfl

theorem sound_judge {child : Node} (h : child.Everywhere Sound) (deadline : Int) :
    (child.judge deadline).1.Everywhere Sound := by
  rcases judge_cases deadline child with he | ⟨alive, he⟩
  · rw [he]
    exact h
  · rw [he]
    have hs : Everywhere Sound { child with isAlive := alive } :=
      sound_root h rfl (everywhere_iff.mp h).1.rated
    exact hs.rollup stable_sound

theorem uuid?_judge (deadline : Int) (child : Node) (p : List String) :
    uuid? p (child.judge deadline).1 = uuid? p child := by
  rcases judge_cases deadline child with he | ⟨alive, he⟩
  · rw [he]
  · rw [he, uuid?_rollup]
    exact uuid?_root (by rfl) (by rfl) p

theorem judgeAll_children (deadline : Int) (children : List (String × Node)) :
    (judgeAll deadline children).1 =
      Keyed.mapValues (fun child => (child.judge deadline).1) children := by
  induction children with
  | nil => rfl
  | cons e rest ih =>
    obtain ⟨key, child⟩ := e
    show (key, (judge deadline child).1) :: (judgeAll deadline rest).1 = _
    rw [ih]
    rfl

theorem sweep_cases (n : Node) (now timeout : Int) :
    (n.sweep now timeout).1 = n ∨
      (n.sweep now timeout).1 = rollup ⟨n.toNodeInfo,
        Keyed.mapValues (fun child => (child.judge (Clock.sub now timeout)).1) n.children⟩ := by
  rw [sweep, ← judgeAll_children]
  by_cases h : (judgeAll (Clock.sub now timeout) n.children).2.isEmpty
  · exact Or.inl (congrArg Prod.fst (if_pos h))
  · exact Or.inr (congrArg Prod.fst (if_neg h))

/-- Children changed in place, none of them in its identifiers. -/
theorem coherent_mapValues (h : n.Coherent) {f : Node → Node}
    (hs : ∀ c : Node, c.Everywhere Sound → (f c).Everywhere Sound)
    (hid : ∀ (c : Node) p, uuid? p (f c) = uuid? p c) :
    (rollup ⟨n.toNodeInfo, Keyed.mapValues f n.children⟩).Coherent := by
  obtain ⟨hroot, hchildren⟩ := everywhere_iff.mp h.sound
  refine coherent_rollup (everywhere_iff.mpr ⟨⟨?_, ?_, hroot.rated⟩, ?_⟩) ?_
  · exact Keyed.ordered_mapValues.mpr hroot.ordered
  · intro e he
    obtain ⟨d, hd, rfl⟩ := List.mem_map.mp he
    have huuid : (f d.2).uuid = d.2.uuid := Option.some.inj (hid d.2 [])
    show d.1 = (f d.2).uuid ∧ (f d.2).uuid ≠ ""
    rw [huuid]
    exact hroot.filed d hd
  · intro e he
    obtain ⟨d, hd, rfl⟩ := List.mem_map.mp he
    exact hs d.2 (hchildren d hd)
  · refine h.distinct.of_fewer fun p uuid hp => ?_
    cases p with
    | nil => exact hp
    | cons key path =>
      rw [uuid?_cons, Keyed.find?_mapValues] at hp
      rw [uuid?_cons]
      cases hc : Keyed.find? key n.children with
      | none =>
        rw [hc] at hp
        exact nomatch hp
      | some c =>
        rw [hc] at hp
        exact (hid c path).symm.trans hp

theorem coherent_sweep (h : n.Coherent) (now timeout : Int) :
    (n.sweep now timeout).1.Coherent := by
  rcases sweep_cases n now timeout with he | he
  · rw [he]
    exact h
  · rw [he]
    exact coherent_mapValues h (fun c hc => sound_judge hc _) (fun c p => uuid?_judge _ c p)

/-! ## The merge -/

theorem sound_placed (hn : n.Everywhere Sound) {incoming : Node} (hid : incoming.uuid ≠ "")
    (now : Int) : (placed n incoming now).Everywhere Sound := by
  have hs := normalize_sound incoming
  have hreceived : (received incoming (Keyed.find? incoming.uuid n.children) now).Everywhere
      Sound := sound_root hs rfl (everywhere_iff.mp hs).1.rated
  have hroot := (everywhere_iff.mp hn).1
  refine Everywhere.setChild hn hreceived ⟨Keyed.ordered_insert hroot.ordered _ _, ?_, hroot.rated⟩
  intro e he
  rcases Keyed.mem_insert he with rfl | he
  · have huuid : (received incoming (Keyed.find? incoming.uuid n.children) now).uuid
        = incoming.uuid := normalize_uuid incoming
    exact ⟨huuid.symm, huuid ▸ hid⟩
  · exact hroot.filed e he

/-- Whatever identifiers a tree has, pruning leaves each of them once. -/
theorem distinct_prune (hn : n.InOrder) (newcomer : Option String) :
    (n.prune newcomer).1.Distinct := by
  intro p q uuid hp hq
  obtain ⟨hpu, hps⟩ := (uuid?_prune_eq_some hn).mp hp
  obtain ⟨hqu, hqs⟩ := (uuid?_prune_eq_some hn).mp hq
  obtain ⟨m, hm, rfl⟩ := uuid?_eq_some.mp hpu
  obtain ⟨k, hk, hid⟩ := uuid?_eq_some.mp hqu
  exact survives_unique hps hqs hm hk hid

/-- Of the tree before only its soundness is used: pruning makes identifiers distinct
whatever the snapshot brings. -/
theorem coherent_merge (h : n.Coherent) (incoming : Node) (now : Int) :
    (n.merge incoming now).1.Coherent := by
  by_cases hrefused : incoming.uuid = "" ∨ incoming.uuid = n.uuid
  · rw [merge_of_refused hrefused]
    exact h
  obtain ⟨hid, hne⟩ := not_or.mp hrefused
  obtain ⟨events, he⟩ := merge_eq hid hne now
  have hs := sound_placed h.sound hid now
  rw [he]
  refine coherent_rollup ?_ (distinct_prune hs.inOrder _)
  rw [prune_tree]
  exact hs.eraseAll stable_sound _

/-! ## All changes -/

theorem coherent_apply (h : n.Coherent) (timeout : Int) (c : Change) :
    (c.apply timeout n).1.Coherent := by
  cases c with
  | merge incoming now => exact coherent_merge h incoming now
  | submit r => exact coherent_submit h r
  | dropReading name => exact coherent_dropReading h name
  | disable name => exact coherent_disable h name
  | sweep now => exact coherent_sweep h now timeout
  | dropChild uuid => exact coherent_dropChild h uuid

end Node
end FleetMesh
