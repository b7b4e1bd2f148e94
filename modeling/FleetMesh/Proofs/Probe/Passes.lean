/-
Passes over the directories of probes.

All directories share the readings and the probes that are out of service, so a pass
over one may meet names that another has run.  `Tidy` is what holds between passes,
and also between the programs of one: a probe is out of service just if a run of a
program of that name asked for it, it has no reading, and nothing of that name was
run afterwards (`tidy_after`).

What one pass does is `Pass.Effect`: it does not run what is out of service, it leaves
other names alone, and in the end what it listed has the outcome of this pass and what
is gone has none (`effect_run`).
-/
import FleetMesh.Probe.Round
import FleetMesh.Proofs.Mesh
import FleetMesh.Proofs.Tree.Apply

namespace FleetMesh
namespace Probe

/-- A pass over some directory: the names that the last one gave, and what is listed
now. -/
structure Pass where
  known : Names
  listing : Option (List Program)

namespace Pass

def run (m : Mesh) (p : Pass) : Round := (round m p.known p.listing).1

/-- The names in the listing. -/
def listed (p : Pass) : List String := (p.listing.getD []).map Program.name

end Pass

/-- Passes one after the other, with all programs that they ran. -/
def after (m : Mesh) (passes : List Pass) : Round :=
  passes.foldl (fun r p => ⟨(p.run r.mesh).mesh, r.executed ++ (p.run r.mesh).executed⟩) ⟨m, []⟩

/-- Whether the program is the last of its name. -/
def IsLast (programs : List Program) (q : Program) : Prop :=
  ∃ front back, programs = front ++ q :: back ∧ ∀ b ∈ back, b.name ≠ q.name

/-- What a pass makes of a mesh. -/
structure Pass.Effect (p : Pass) (m : Mesh) (next : Round) : Prop where
  idle : ∀ q ∈ next.executed, m.root.isDisabled q.name = false
  unlisted : ∀ name, name ∉ p.listed → Keyed.contains name p.known = false →
    next.mesh.root.localHost.reading? name = m.root.localHost.reading? name ∧
      next.mesh.root.isDisabled name = m.root.isDisabled name
  failed : p.listing = none → next.mesh = m ∧ next.executed = []
  /-- Of programs that are called the same the last one counts. -/
  fresh : ∀ programs, p.listing = some programs → ∀ name ∈ p.listed,
    next.mesh.root.isDisabled name = false →
      ∃ q ∈ next.executed, q.name = name ∧ IsLast programs q ∧
        ∃ r, q.outcome = .reading r ∧ next.mesh.root.localHost.reading? name = some r
  gone : p.listing.isSome → ∀ name, Keyed.contains name p.known = true → name ∉ p.listed →
    next.mesh.root.localHost.reading? name = none

variable {m : Mesh} {r : Round} {p q : Program} {pass : Pass} {name : String}

/-! ## Outcomes -/

theorem name_failed {code : Int} {message detail : String} {date : Timestamp} {reading : Reading}
    (h : failed name code message detail date = .reading reading) : reading.name = name := by
  obtain rfl := Outcome.reading.inj h
  rw [Reading.withDetail]
  split <;> rfl

/-- The reading of a program has its name. -/
theorem name_outcome {reading : Reading} (h : p.outcome = .reading reading) :
    reading.name = p.name := by
  obtain ⟨name, date, ending⟩ := p
  rw [Program.outcome] at h
  cases ending with
  | notStarted why => exact name_failed h
  | timedOut => exact name_failed h
  | lost why => exact name_failed h
  | killed signal output errors dumped => exact name_failed h
  | exited code output errors details =>
    rw [outcome] at h
    split at h
    · cases h
    · split at h
      · unfold reported at h
        dsimp only at h
        split at h
        · obtain rfl := Outcome.reading.inj h
          rfl
        · exact name_failed h
      · exact name_failed h

/-! ## Changes of the local readings -/

theorem reading?_submit (m : Mesh) (reading : Reading) (name : String) :
    (m.run (.submit reading)).root.localHost.reading? name =
      if reading.name = name then some reading else m.root.localHost.reading? name := by
  rw [Mesh.run_root, Node.host_apply]
  exact Host.reading?_store _ reading name

theorem reading?_dropReading (hm : Keyed.Ordered m.root.localHost.readings) (other name : String) :
    (m.run (.dropReading other)).root.localHost.reading? name =
      if other = name then none else m.root.localHost.reading? name := by
  rw [Mesh.run_root, Node.host_apply]
  exact Host.reading?_drop hm other name

theorem reading?_disable (m : Mesh) (other name : String) :
    (m.run (.disable other)).root.localHost.reading? name = m.root.localHost.reading? name := by
  rw [Mesh.run_root, Node.host_apply]

theorem isDisabled_submit (m : Mesh) (reading : Reading) (name : String) :
    (m.run (.submit reading)).root.isDisabled name = m.root.isDisabled name := by
  rw [Node.isDisabled, Mesh.run_root, Node.disabled_apply, Node.isDisabled]

theorem isDisabled_dropReading (m : Mesh) (other name : String) :
    (m.run (.dropReading other)).root.isDisabled name = m.root.isDisabled name := by
  rw [Node.isDisabled, Mesh.run_root, Node.disabled_apply, Node.isDisabled]

theorem isDisabled_disable (m : Mesh) (other name : String) :
    (m.run (.disable other)).root.isDisabled name = true ↔
      other = name ∨ m.root.isDisabled name = true := by
  rw [Node.isDisabled, Mesh.run_root, Node.disabled_apply, Node.isDisabled]
  exact Keyed.contains_insert other name () m.root.disabled

theorem ordered_run (hm : Keyed.Ordered m.root.localHost.readings) (c : Change) :
    Keyed.Ordered (m.run c).root.localHost.readings := by
  rw [Mesh.run_root]
  exact Node.ordered_readings_apply hm _ c

/-! ## One program -/

/-- What can become of a program of the listing. -/
inductive Visited (r : Round) (p : Program) : Round → Prop
  | skipped (h : r.mesh.root.isDisabled p.name = true) : Visited r p r
  | stored {reading : Reading} (h : r.mesh.root.isDisabled p.name = false)
    (hp : p.outcome = .reading reading) :
    Visited r p ⟨r.mesh.run (.submit reading), r.executed ++ [p]⟩
  | stopped (h : r.mesh.root.isDisabled p.name = false) (hp : p.outcome = .disable) :
    Visited r p ⟨(r.mesh.run (.disable p.name)).run (.dropReading p.name), r.executed ++ [p]⟩

theorem visited_visit (r : Round) (p : Program) : Visited r p (visit r p) := by
  rw [visit]
  split
  · exact .skipped ‹_›
  · rename_i h
    rw [Bool.not_eq_true] at h
    dsimp only
    split
    · exact .stored h ‹_›
    · exact .stopped h ‹_›

/-- What holds between programs.  `executed` are those that were run. -/
structure Tidy (r : Round) : Prop where
  ordered : Keyed.Ordered r.mesh.root.localHost.readings
  disabled : ∀ name, r.mesh.root.isDisabled name = true ↔
    ∃ q ∈ r.executed, q.name = name ∧ q.outcome = .disable
  out : ∀ name, r.mesh.root.isDisabled name = true → r.mesh.root.localHost.reading? name = none
  once : r.executed.Pairwise (fun a b => a.outcome = .disable → b.name ≠ a.name)

/-- A program that was run is not of a name that was out of service. -/
theorem Tidy.once_concat (h : Tidy r) (hp : r.mesh.root.isDisabled p.name = false) :
    (r.executed ++ [p]).Pairwise (fun a b => a.outcome = .disable → b.name ≠ a.name) := by
  refine List.pairwise_append.mpr ⟨h.once, List.pairwise_singleton _ _, fun a ha b hb hstop => ?_⟩
  obtain rfl := List.mem_singleton.mp hb
  intro hname
  rw [(h.disabled b.name).mpr ⟨a, ha, hname.symm, hstop⟩] at hp
  cases hp

theorem exists_mem_concat {executed : List Program} (p : Program) {P : Program → Prop} :
    (∃ q ∈ executed ++ [p], P q) ↔ (∃ q ∈ executed, P q) ∨ P p := by
  simp only [List.mem_append, List.mem_singleton, or_and_right, exists_or, exists_eq_left]

theorem Tidy.dropReading (h : Tidy r) (other : String) :
    Tidy ⟨r.mesh.run (.dropReading other), r.executed⟩ where
  ordered := ordered_run h.ordered _
  disabled := fun name => by
    rw [isDisabled_dropReading]
    exact h.disabled name
  out := fun name hname => by
    rw [isDisabled_dropReading] at hname
    rw [reading?_dropReading h.ordered]
    split
    · rfl
    · exact h.out name hname
  once := h.once

theorem Tidy.visited {next : Round} (h : Tidy r) (hv : Visited r p next) : Tidy next := by
  cases hv with
  | skipped => exact h
  | @stored reading hp hout =>
    refine ⟨ordered_run h.ordered _, fun name => ?_, fun name hname => ?_, h.once_concat hp⟩
    · rw [isDisabled_submit, h.disabled, exists_mem_concat]
      refine (or_iff_left fun ⟨_, hstop⟩ => ?_).symm
      rw [hout] at hstop
      cases hstop
    · rw [isDisabled_submit] at hname
      rw [reading?_submit, if_neg ?_]
      · exact h.out name hname
      · rw [name_outcome hout]
        rintro rfl
        rw [hp] at hname
        cases hname
  | stopped hp hout =>
    refine ⟨ordered_run (ordered_run h.ordered _) _, fun name => ?_, fun name hname => ?_,
      h.once_concat hp⟩
    · rw [isDisabled_dropReading, isDisabled_disable, h.disabled, exists_mem_concat, or_comm]
      exact or_congr_right (and_iff_left hout).symm
    · rw [isDisabled_dropReading, isDisabled_disable] at hname
      rw [reading?_dropReading (ordered_run h.ordered _), reading?_disable]
      split
      · rfl
      · rename_i hne
        exact h.out name (hname.resolve_left hne)

/-- A program is of no concern to other names. -/
theorem Visited.other {next : Round} (hv : Visited r p next)
    (hr : Keyed.Ordered r.mesh.root.localHost.readings) (hne : p.name ≠ name) :
    next.mesh.root.localHost.reading? name = r.mesh.root.localHost.reading? name ∧
      next.mesh.root.isDisabled name = r.mesh.root.isDisabled name := by
  cases hv with
  | skipped => exact ⟨rfl, rfl⟩
  | @stored reading hp hout =>
    rw [reading?_submit, name_outcome hout, if_neg hne, isDisabled_submit]
    exact ⟨rfl, rfl⟩
  | stopped hp hout =>
    rw [reading?_dropReading (ordered_run hr _), if_neg hne, reading?_disable,
      isDisabled_dropReading]
    refine ⟨rfl, Bool.eq_iff_iff.mpr ?_⟩
    rw [isDisabled_disable, or_iff_right hne]

theorem Visited.executed {next : Round} (hv : Visited r p next) :
    ∃ more, next.executed = r.executed ++ more ∧
      ∀ q ∈ more, q = p ∧ r.mesh.root.isDisabled q.name = false := by
  cases hv with
  | skipped => exact ⟨[], (List.append_nil _).symm, fun _ hq => absurd hq List.not_mem_nil⟩
  | stored h _ => exact ⟨[p], rfl, fun q hq => by rw [List.mem_singleton.mp hq]; exact ⟨rfl, h⟩⟩
  | stopped h _ => exact ⟨[p], rfl, fun q hq => by rw [List.mem_singleton.mp hq]; exact ⟨rfl, h⟩⟩

theorem Visited.ordered {next : Round} (hv : Visited r p next)
    (hr : Keyed.Ordered r.mesh.root.localHost.readings) :
    Keyed.Ordered next.mesh.root.localHost.readings := by
  cases hv with
  | skipped => exact hr
  | stored => exact ordered_run hr _
  | stopped => exact ordered_run (ordered_run hr _) _

/-- A program that was visited and is in service has its reading stored. -/
theorem Visited.fresh {next : Round} (hv : Visited r p next)
    (hp : next.mesh.root.isDisabled p.name = false) : p ∈ next.executed ∧
      ∃ reading, p.outcome = .reading reading ∧
        next.mesh.root.localHost.reading? p.name = some reading := by
  cases hv with
  | skipped h =>
    rw [h] at hp
    cases hp
  | @stored reading _ hout =>
    refine ⟨List.mem_concat_self, reading, hout, ?_⟩
    rw [reading?_submit, if_pos (name_outcome hout)]
  | stopped h hout =>
    have hstopped : (r.mesh.run (.disable p.name)).root.isDisabled p.name = true :=
      (isDisabled_disable _ _ _).mpr (Or.inl rfl)
    rw [isDisabled_dropReading, hstopped] at hp
    cases hp

theorem Visited.stays {next : Round} (hv : Visited r p next)
    (h : r.mesh.root.isDisabled name = true) : next.mesh.root.isDisabled name = true := by
  cases hv with
  | skipped => exact h
  | stored => rwa [isDisabled_submit]
  | stopped => rw [isDisabled_dropReading, isDisabled_disable]; exact Or.inr h

/-! ## A listing -/

theorem tidy_foldl (h : Tidy r) (programs : List Program) : Tidy (programs.foldl visit r) := by
  induction programs generalizing r with
  | nil => exact h
  | cons p programs ih => exact ih (h.visited (visited_visit r p))

theorem ordered_foldl (hr : Keyed.Ordered r.mesh.root.localHost.readings)
    (programs : List Program) :
    Keyed.Ordered (programs.foldl visit r).mesh.root.localHost.readings := by
  induction programs generalizing r with
  | nil => exact hr
  | cons p programs ih => exact ih ((visited_visit r p).ordered hr)

/-- Names that are not listed are left alone. -/
theorem foldl_other {programs : List Program}
    (hr : Keyed.Ordered r.mesh.root.localHost.readings) (hname : ∀ p ∈ programs, p.name ≠ name) :
    (programs.foldl visit r).mesh.root.localHost.reading? name =
        r.mesh.root.localHost.reading? name ∧
      (programs.foldl visit r).mesh.root.isDisabled name = r.mesh.root.isDisabled name := by
  induction programs generalizing r with
  | nil => exact ⟨rfl, rfl⟩
  | cons p programs ih =>
    obtain ⟨hp, hrest⟩ := List.forall_mem_cons.mp hname
    have hv := visited_visit r p
    obtain ⟨hreading, hdisabled⟩ := hv.other hr hp
    obtain ⟨hreadings, hout⟩ := ih (hv.ordered hr) hrest
    exact ⟨hreadings.trans hreading, hout.trans hdisabled⟩

theorem foldl_executed (r : Round) (programs : List Program) :
    ∃ more, (programs.foldl visit r).executed = r.executed ++ more ∧
      ∀ q ∈ more, r.mesh.root.isDisabled q.name = false := by
  induction programs generalizing r with
  | nil => exact ⟨[], (List.append_nil _).symm, fun _ hq => absurd hq List.not_mem_nil⟩
  | cons p programs ih =>
    have hv := visited_visit r p
    obtain ⟨one, hone, hfirst⟩ := hv.executed
    obtain ⟨more, hmore, hrest⟩ := ih (visit r p)
    refine ⟨one ++ more, ?_, fun q hq => ?_⟩
    · rw [List.foldl_cons, hmore, hone, List.append_assoc]
    · rcases List.mem_append.mp hq with hq | hq
      · exact (hfirst q hq).2
      · -- what is out of service at first still is after `p`
        rw [Bool.eq_false_iff]
        intro hout
        have hlater := hrest q hq
        rw [hv.stays hout] at hlater
        cases hlater

theorem exists_isLast {programs : List Program} (h : name ∈ programs.map Program.name) :
    ∃ q, q.name = name ∧ IsLast programs q := by
  induction programs with
  | nil => cases h
  | cons p programs ih =>
    by_cases hlater : name ∈ programs.map Program.name
    · obtain ⟨q, hq, front, back, rfl, hback⟩ := ih hlater
      exact ⟨q, hq, p :: front, back, rfl, hback⟩
    · obtain rfl : name = p.name := (List.mem_cons.mp h).resolve_right hlater
      exact ⟨p, rfl, [], programs, rfl, fun b hb hname => hlater (List.mem_map.mpr ⟨b, hb, hname⟩)⟩

/-- What the last program of its name came to is there at the end of the listing. -/
theorem foldl_fresh {programs : List Program}
    (hr : Keyed.Ordered r.mesh.root.localHost.readings) (hlast : IsLast programs q)
    (hq : (programs.foldl visit r).mesh.root.isDisabled q.name = false) :
    q ∈ (programs.foldl visit r).executed ∧ ∃ reading, q.outcome = .reading reading ∧
      (programs.foldl visit r).mesh.root.localHost.reading? q.name = some reading := by
  obtain ⟨front, back, rfl, hback⟩ := hlast
  rw [List.foldl_append, List.foldl_cons] at hq ⊢
  have hv := visited_visit (front.foldl visit r) q
  -- what follows has other names, so it leaves what `q` came to
  obtain ⟨hreading, hdisabled⟩ := foldl_other (hv.ordered (ordered_foldl hr front)) hback
  obtain ⟨hmem, reading, hout, hstored⟩ := hv.fresh (hdisabled.symm.trans hq)
  obtain ⟨more, hmore, _⟩ := foldl_executed (visit (front.foldl visit r) q) back
  refine ⟨?_, reading, hout, hreading.trans hstored⟩
  rw [hmore]
  exact List.mem_append_left _ hmem

/-- What was run before is only carried along. -/
theorem foldl_visit (earlier programs : List Program) (m : Mesh) (done : List Program) :
    programs.foldl visit ⟨m, earlier ++ done⟩ =
      ⟨(programs.foldl visit ⟨m, done⟩).mesh,
        earlier ++ (programs.foldl visit ⟨m, done⟩).executed⟩ := by
  induction programs generalizing m done with
  | nil => rfl
  | cons p programs ih =>
    have hvisit : visit ⟨m, earlier ++ done⟩ p =
        ⟨(visit ⟨m, done⟩ p).mesh, earlier ++ (visit ⟨m, done⟩ p).executed⟩ := by
      rw [visit, visit]
      dsimp only
      split
      · rfl
      · rw [List.append_assoc]
    rw [List.foldl_cons, hvisit, ih, List.foldl_cons]

/-! ## Names that are gone -/

theorem contains_names {list : List String} :
    Keyed.contains name (names list) = true ↔ name ∈ list := by
  have hfold : ∀ table : Names,
      Keyed.contains name ((list.map (fun name => (name, ()))).foldl
          (fun table entry => Keyed.insert entry.1 entry.2 table) table) = true ↔
        name ∈ list ∨ Keyed.contains name table = true := by
    induction list with
    | nil => simp
    | cons first list ih =>
      intro table
      rw [List.map_cons, List.foldl_cons, ih, Keyed.contains_insert, List.mem_cons,
        eq_comm (a := name)]
      tauto
  rw [names, Keyed.ofList, hfold]
  exact or_iff_left Bool.false_ne_true

theorem tidy_dropped {gone : List String} {executed : List Program} (h : Tidy ⟨m, executed⟩) :
    Tidy ⟨gone.foldl (fun m name => m.run (.dropReading name)) m, executed⟩ := by
  induction gone generalizing m with
  | nil => exact h
  | cons other gone ih => exact ih (h.dropReading other)

theorem isDisabled_dropped (gone : List String) (m : Mesh) (name : String) :
    (gone.foldl (fun m name => m.run (.dropReading name)) m).root.isDisabled name =
      m.root.isDisabled name := by
  induction gone generalizing m with
  | nil => rfl
  | cons other gone ih => rw [List.foldl_cons, ih, isDisabled_dropReading]

theorem reading?_dropped (hm : Keyed.Ordered m.root.localHost.readings) (gone : List String)
    (name : String) :
    (gone.foldl (fun m name => m.run (.dropReading name)) m).root.localHost.reading? name =
      if name ∈ gone then none else m.root.localHost.reading? name := by
  induction gone generalizing m with
  | nil => simp
  | cons other gone ih =>
    rw [List.foldl_cons, ih (ordered_run hm _), reading?_dropReading hm]
    by_cases hname : name = other
    · simp [hname]
    · simp [hname, Ne.symm hname]

/-! ## One pass -/

/-- The names that a pass finds gone. -/
def Pass.goneOf (p : Pass) (programs : List Program) : List String :=
  (Keyed.keys p.known).filter (fun name => !Keyed.contains name (names (programs.map Program.name)))

theorem mem_goneOf {programs : List Program} : name ∈ pass.goneOf programs ↔
    Keyed.contains name pass.known = true ∧ name ∉ programs.map Program.name := by
  rw [Pass.goneOf, List.mem_filter, ← Keyed.contains_iff_mem_keys, Bool.not_eq_true',
    ← Bool.not_eq_true, contains_names]

theorem run_failed (h : pass.listing = none) : pass.run m = ⟨m, []⟩ := by
  simp only [Pass.run, round, h]

theorem run_listed {programs : List Program} (h : pass.listing = some programs) :
    pass.run m = ⟨(pass.goneOf programs).foldl (fun m name => m.run (.dropReading name))
      (programs.foldl visit ⟨m, []⟩).mesh, (programs.foldl visit ⟨m, []⟩).executed⟩ := by
  simp only [Pass.run, round, h]
  rfl

theorem listed_eq {programs : List Program} (h : pass.listing = some programs) :
    pass.listed = programs.map Program.name := by
  rw [Pass.listed, h, Option.getD_some]

theorem tidy_run (h : Tidy r) (pass : Pass) :
    Tidy ⟨(pass.run r.mesh).mesh, r.executed ++ (pass.run r.mesh).executed⟩ := by
  cases hlisting : pass.listing with
  | none =>
    rw [run_failed hlisting, List.append_nil]
    exact h
  | some programs =>
    rw [run_listed hlisting]
    refine tidy_dropped ?_
    rw [← foldl_visit, List.append_nil]
    exact tidy_foldl h programs

theorem effect_run (hm : Keyed.Ordered m.root.localHost.readings) (pass : Pass) :
    pass.Effect m (pass.run m) := by
  cases hlisting : pass.listing with
  | none =>
    rw [run_failed hlisting]
    exact {
      idle := fun _ hq => absurd hq List.not_mem_nil
      unlisted := fun _ _ _ => ⟨rfl, rfl⟩
      failed := fun _ => ⟨rfl, rfl⟩
      fresh := fun _ h => by rw [hlisting] at h; cases h
      gone := fun h => by rw [hlisting] at h; cases h }
  | some programs =>
    have hafter := ordered_foldl (r := ⟨m, []⟩) hm programs
    rw [run_listed hlisting]
    refine ⟨?_, ?_, fun h => ?_, fun _ h name hname hon => ?_, fun _ name hknown hname => ?_⟩
    · obtain ⟨more, hmore, hidle⟩ := foldl_executed ⟨m, []⟩ programs
      intro q hq
      rw [hmore] at hq
      exact hidle q hq
    · intro name hname hknown
      rw [listed_eq hlisting] at hname
      have hgone : name ∉ pass.goneOf programs := fun hmem => by
        rw [(mem_goneOf.mp hmem).1] at hknown
        cases hknown
      rw [reading?_dropped hafter, if_neg hgone, isDisabled_dropped]
      exact foldl_other hm fun p hp he => hname (List.mem_map.mpr ⟨p, hp, he⟩)
    · rw [hlisting] at h
      cases h
    · obtain rfl : programs = _ := Option.some.inj (hlisting.symm.trans h)
      rw [listed_eq hlisting] at hname
      obtain ⟨q, rfl, hlast⟩ := exists_isLast hname
      have hgone : q.name ∉ pass.goneOf programs := fun hmem => (mem_goneOf.mp hmem).2 hname
      rw [isDisabled_dropped] at hon
      rw [reading?_dropped hafter, if_neg hgone]
      obtain ⟨hmem, hstored⟩ := foldl_fresh hm hlast hon
      exact ⟨q, hmem, rfl, hlast, hstored⟩
    · rw [listed_eq hlisting] at hname
      rw [reading?_dropped hafter, if_pos (mem_goneOf.mpr ⟨hknown, hname⟩)]

/-! ## Any passes -/

theorem tidy_new (uuid hostname group : String) (now timeout : Int) :
    Tidy ⟨Mesh.new (Node.new uuid hostname group now) timeout, []⟩ where
  ordered := List.Pairwise.nil
  disabled := fun _ => iff_of_false Bool.false_ne_true fun ⟨_, hq, _⟩ =>
    absurd hq List.not_mem_nil
  out := fun _ _ => rfl
  once := List.Pairwise.nil

theorem tidy_after (h : Tidy ⟨m, []⟩) (passes : List Pass) : Tidy (after m passes) := by
  have hfold : ∀ r : Round, Tidy r → Tidy (passes.foldl (fun r p =>
      ⟨(p.run r.mesh).mesh, r.executed ++ (p.run r.mesh).executed⟩) r) := by
    induction passes with
    | nil => exact fun _ hr => hr
    | cons pass passes ih => exact fun r hr => ih _ (tidy_run hr pass)
  exact hfold ⟨m, []⟩ h

/-- After any passes over any directories the probes out of service are those of which a run
asked for it.  They have no reading, and nothing of their name was run since or is run by
another pass, which has its effect on the names that it listed or knew and on no others. -/
theorem disabled_stay_out (uuid hostname group : String) (now timeout : Int)
    (passes : List Pass) :
    let r := after (Mesh.new (Node.new uuid hostname group now) timeout) passes
    (∀ name, r.mesh.root.isDisabled name = true ↔
        ∃ q ∈ r.executed, q.name = name ∧ q.outcome = .disable) ∧
      (∀ name, r.mesh.root.isDisabled name = true →
        r.mesh.root.localHost.reading? name = none) ∧
      r.executed.Pairwise (fun a b => a.outcome = .disable → b.name ≠ a.name) ∧
      ∀ pass : Pass, pass.Effect r.mesh (pass.run r.mesh) := by
  have h := tidy_after (tidy_new uuid hostname group now timeout) passes
  exact ⟨h.disabled, h.out, h.once, effect_run h.ordered⟩

/-- Two directories with a program of the same name.  Where the second is, it has nothing
to do. -/
def clashing : List Pass :=
  [⟨[], some [⟨"disk", .ofUnix 10, .timedOut⟩, ⟨"load", .ofUnix 11, .timedOut⟩]⟩,
    ⟨[], some [⟨"disk", .ofUnix 20, .exited disableCode [] []⟩]⟩,
    ⟨names ["disk", "load"], some [⟨"disk", .ofUnix 30, .timedOut⟩]⟩]

theorem clashing_stay_out :
    let r := after (Mesh.new (Node.new "m" "host" "g" 0) 60) clashing
    r.executed.map Program.name = ["disk", "load", "disk"] ∧
      r.mesh.root.isDisabled "disk" = true ∧
      r.mesh.root.localHost.reading? "disk" = none ∧
      ∀ pass : Pass, ∀ q ∈ (pass.run r.mesh).executed, q.name ≠ "disk" := by
  obtain ⟨_, hout, _, heffect⟩ := disabled_stay_out "m" "host" "g" 0 60 clashing
  have hdisk : (after (Mesh.new (Node.new "m" "host" "g" 0) 60) clashing).mesh.root.isDisabled
      "disk" = true := by decide
  refine ⟨by decide, hdisk, hout _ hdisk, fun pass q hq hname => ?_⟩
  have hidle := (heffect pass).idle q hq
  rw [hname, hdisk] at hidle
  cases hidle

end Probe
end FleetMesh
