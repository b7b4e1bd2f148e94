/-
In which order the events of several tasks are queued.

Whatever the order of the steps, the tree is what the changes make of it in the order
in which they took effect, and every event of theirs is queued once
(`Consistent.complete`).  An event comes before one of an earlier change only if the
two changes overlapped: the task of the earlier one was still queueing when the later
one took effect (`Consistent.ahead`).  So reports among which there is no overlap come
in the order of their changes (`Consistent.serial`).
-/
import FleetMesh.Proofs.Liveness.Run
import FleetMesh.Proofs.Queue.Writers

namespace FleetMesh

open Writers (Report Entry Task)

/-! ## One change after another -/

namespace Mesh

/-- The mesh after some changes. -/
def after (m : Mesh) (changes : List Change) : Mesh := changes.foldl run m

/-- The events of a run in their order, each with its change.  The changes are numbered
from `first` on. -/
def reports (m : Mesh) (first : Nat) : List Change → List Report
  | [] => []
  | c :: rest =>
    (c.apply m.timeout m.root).2.map (Report.mk first c) ++ (m.run c).reports (first + 1) rest

variable {m : Mesh} {first : Nat} {changes : List Change} {r : Report}

theorem Reachable.after (h : m.Reachable) (changes : List Change) : (m.after changes).Reachable := by
  induction changes generalizing m with
  | nil => exact h
  | cons c changes ih => exact ih (h.run c)

theorem after_timeout (m : Mesh) (changes : List Change) :
    (m.after changes).timeout = m.timeout := by
  induction changes generalizing m with
  | nil => rfl
  | cons c changes ih => exact (ih (m.run c)).trans (run_timeout m c)

theorem after_concat (m : Mesh) (changes : List Change) (c : Change) :
    m.after (changes ++ [c]) = (m.after changes).run c := List.foldl_concat _ _ _ _

theorem reports_append (m : Mesh) (first : Nat) (changes more : List Change) :
    m.reports first (changes ++ more) =
      m.reports first changes ++ (m.after changes).reports (first + changes.length) more := by
  induction changes generalizing m first with
  | nil => rfl
  | cons c changes ih =>
    have hfirst : first + 1 + changes.length = first + (c :: changes).length := by
      rw [List.length_cons]
      omega
    rw [List.cons_append, reports, reports, ih, hfirst, List.append_assoc]
    rfl

/-- The reports with one change more. -/
theorem reports_concat (m : Mesh) (changes : List Change) (c : Change) :
    m.reports 0 (changes ++ [c]) = m.reports 0 changes ++
      (c.apply m.timeout (m.after changes).root).2.map (Report.mk changes.length c) := by
  rw [reports_append, reports, reports, List.append_nil, after_timeout, Nat.zero_add]

theorem reports_event (m : Mesh) (first : Nat) (changes : List Change) :
    (m.reports first changes).map Report.event = m.events changes := by
  induction changes generalizing m first with
  | nil => rfl
  | cons c changes ih =>
    rw [reports, events, List.map_append, List.map_map, ih]
    exact congrArg (fun l => l ++ _) (List.map_id _)

theorem number_of_report (h : r ∈ m.reports first changes) :
    first ≤ r.number ∧ r.number < first + changes.length := by
  induction changes generalizing m first with
  | nil => exact absurd h List.not_mem_nil
  | cons c changes ih =>
    rw [reports, List.mem_append, List.mem_map] at h
    rw [List.length_cons]
    rcases h with ⟨e, _, rfl⟩ | h
    · exact ⟨Nat.le_refl _, Nat.lt_add_of_pos_right (Nat.succ_pos _)⟩
    · obtain ⟨hle, hlt⟩ := ih h
      omega

theorem reports_sorted (m : Mesh) (first : Nat) (changes : List Change) :
    (m.reports first changes).Pairwise (fun r s => r.number ≤ s.number) := by
  induction changes generalizing m first with
  | nil => exact List.Pairwise.nil
  | cons c changes ih =>
    rw [reports]
    refine List.pairwise_append.mpr ⟨?_, ih (m.run c) (first + 1), fun r hr s hs => ?_⟩
    · exact List.pairwise_map.mpr (List.pairwise_of_forall fun _ _ => Nat.le_refl first)
    · obtain ⟨e, _, rfl⟩ := List.mem_map.mp hr
      exact Nat.le_of_succ_le (number_of_report hs).1

end Mesh

namespace Writers

variable {m : Mesh} {queue : EventQueue} {programs : List (List Change)} {w : Writers}
  {place : Nat}

/-! ## What is known of the tasks -/

/-- The changes that took effect, in this order. -/
def changes (w : Writers) : List Change := w.record.map Entry.change

/-- The changes that a task has made. -/
def made (w : Writers) (place : Nat) : List Change :=
  (w.record.filter (fun entry => entry.place = place)).map Entry.change

/-- What a task is still going to do. -/
def toDo (w : Writers) (place : Nat) : List Change := (w.tasks[place]?).elim [] Task.changes

/-- What a task has yet to queue. -/
def unsent (w : Writers) (place : Nat) : List Report := (w.tasks[place]?).elim [] Task.unsent

/-- Whether of the earlier of two changes events were yet to be queued when the later
took effect. -/
def Overlap (w : Writers) (earlier later : Nat) : Prop :=
  ∃ entry, w.record[later]? = some entry ∧ earlier ∈ entry.underway

/-- Whether no two changes with such reports overlapped. -/
def Serial (w : Writers) (P : Report → Bool) : Prop :=
  ∀ r ∈ w.told, ∀ s ∈ w.told, P r = true → P s = true → ¬ w.Overlap r.number s.number

/-- What holds of the tasks at any time. -/
structure Consistent (m : Mesh) (queue : EventQueue) (programs : List (List Change))
    (w : Writers) : Prop where
  tree : w.mesh.root = (m.after w.changes).root
  timeout : w.mesh.timeout = m.timeout
  queued : w.mesh.queue = ⟨queue.pending ++ w.told.map Report.event, true⟩
  programs : ∀ place, w.made place ++ w.toDo place = (programs[place]?).getD []
  /-- A task queues what its own changes report. -/
  owned : ∀ place, ∀ r ∈ w.unsent place,
    ∃ entry, w.record[r.number]? = some entry ∧ entry.place = place
  known : ∀ r ∈ w.told, r.number < w.record.length
  /-- What a change reports was queued, or its task has yet to queue it. -/
  complete : ∀ k entry, w.record[k]? = some entry →
    (w.told ++ w.unsent entry.place).filter (fun r => r.number = k) =
      (m.reports 0 w.changes).filter (fun r => r.number = k)
  pending : ∀ place, ∀ r ∈ w.unsent place, ∀ k < w.record.length, r.number < k →
    w.Overlap r.number k
  ahead : w.told.Pairwise (fun r s => s.number < r.number → w.Overlap s.number r.number)

theorem mem_underway {r : Report} (h : r ∈ w.unsent place) : r.number ∈ w.underway := by
  rw [unsent] at h
  cases htask : w.tasks[place]? with
  | none =>
    rw [htask] at h
    exact absurd h List.not_mem_nil
  | some task =>
    rw [htask] at h
    refine List.mem_map_of_mem (List.mem_flatMap.mpr ⟨task, ?_, h⟩)
    exact List.mem_of_getElem? htask

/-- What is recorded stays. -/
theorem getElem?_record {entry last : Entry} {k : Nat} (h : w.record[k]? = some entry) :
    (w.record ++ [last])[k]? = some entry := by
  obtain ⟨hlt, -⟩ := List.getElem?_eq_some_iff.mp h
  rw [List.getElem?_append_left hlt, h]

theorem consistent_start (hopen : queue.isOpen = true) : Consistent m queue programs
    (start m queue programs) where
  tree := rfl
  timeout := rfl
  queued := by
    show queue = ⟨queue.pending ++ [], true⟩
    rw [List.append_nil, ← hopen]
  programs := by
    intro place
    show [] ++ ((programs.map (fun changes => Task.mk changes []))[place]?).elim [] Task.changes = _
    rw [List.getElem?_map]
    cases programs[place]? <;> rfl
  owned := by
    intro place r hr
    rw [unsent, start, List.getElem?_map] at hr
    cases hp : programs[place]? with
    | none =>
      rw [hp] at hr
      exact absurd hr List.not_mem_nil
    | some changes =>
      rw [hp] at hr
      exact absurd hr List.not_mem_nil
  known := fun r hr => absurd hr List.not_mem_nil
  complete := fun k entry hk => nomatch hk
  pending := fun place r hr k hk => absurd hk (Nat.not_lt_zero k)
  ahead := List.Pairwise.nil

/-! ## A change of the tree -/

variable {c : Change} {rest : List Change} {r : Report} {left : List Report} {todo : List Change}

theorem changes_change (w : Writers) (place : Nat) (c : Change) (rest : List Change) :
    (w.change place c rest).changes = w.changes ++ [c] := List.map_append

theorem made_change (w : Writers) (place : Nat) (c : Change) (rest : List Change) (other : Nat) :
    (w.change place c rest).made other =
      if other = place then w.made other ++ [c] else w.made other := by
  have hlast : [Entry.mk c place w.underway].filter (fun entry => entry.place = other) =
      if other = place then [⟨c, place, w.underway⟩] else [] := by
    by_cases he : other = place
    · simp [he]
    · simp [he, Ne.symm he]
  show List.map _ (List.filter _ (w.record ++ _)) = _
  rw [List.filter_append, List.map_append, hlast]
  split
  · rfl
  · exact List.append_nil _

theorem toDo_change (h : w.tasks[place]? = some ⟨c :: rest, []⟩) (other : Nat) :
    (w.change place c rest).toDo other = if other = place then rest else w.toDo other := by
  rw [toDo, change, getElem?_set_task h]
  split <;> rfl

theorem unsent_change (h : w.tasks[place]? = some ⟨c :: rest, []⟩) (other : Nat) :
    (w.change place c rest).unsent other =
      if other = place then
        (c.apply w.mesh.timeout w.mesh.root).2.map (Report.mk w.record.length c)
      else w.unsent other := by
  rw [unsent, change, getElem?_set_task h]
  split <;> rfl

theorem number_of_change {events : List Event} {number : Nat}
    (h : r ∈ events.map (Report.mk number c)) : r.number = number := by
  obtain ⟨e, _, rfl⟩ := List.mem_map.mp h
  rfl

theorem Overlap.change {earlier later : Nat} (h : w.Overlap earlier later) (place : Nat)
    (c : Change) (rest : List Change) : (w.change place c rest).Overlap earlier later := by
  obtain ⟨entry, hentry, hmem⟩ := h
  exact ⟨entry, getElem?_record hentry, hmem⟩

/-- Reports of one change, among those of others. -/
theorem filter_number_eq_nil {reports : List Report} {k : Nat}
    (h : ∀ r ∈ reports, r.number ≠ k) : reports.filter (fun r => r.number = k) = [] :=
  List.filter_eq_nil_iff.mpr fun r hr => by simpa using h r hr

/-- The change itself has all its reports unsent, and those before it are as they were. -/
theorem Consistent.complete_change (h : Consistent m queue programs w)
    (htask : w.tasks[place]? = some ⟨c :: rest, []⟩) {k : Nat} {entry : Entry}
    (hk : (w.change place c rest).record[k]? = some entry) :
    ((w.change place c rest).told ++ (w.change place c rest).unsent entry.place).filter
        (fun r => r.number = k) =
      (m.reports 0 (w.change place c rest).changes).filter (fun r => r.number = k) := by
  have hlength : w.changes.length = w.record.length := List.length_map _
  have hk' : (w.record ++ [⟨c, place, w.underway⟩])[k]? = some entry := hk
  rw [changes_change, Mesh.reports_concat, ← h.tree, ← h.timeout, hlength, unsent_change htask]
  show List.filter _ (w.told ++ _) = _
  rw [List.filter_append, List.filter_append]
  rcases Nat.lt_trichotomy k w.record.length with hlt | rfl | hgt
  · rw [List.getElem?_append_left hlt] at hk'
    have hothers := h.complete k entry hk'
    have hnew : ((c.apply w.mesh.timeout w.mesh.root).2.map
        (Report.mk w.record.length c)).filter (fun r => r.number = k) = [] :=
      filter_number_eq_nil fun r hr => by
        rw [number_of_change hr]
        exact Nat.ne_of_gt hlt
    rw [List.filter_append] at hothers
    rw [hnew, List.append_nil, ← hothers]
    split
    · rename_i he
      have hnone : w.unsent place = [] := by
        rw [unsent, htask]
        rfl
      rw [hnew, he, hnone]
      rfl
    · rfl
  · rw [List.getElem?_concat_length] at hk'
    obtain rfl := Option.some.inj hk'
    have htold : w.told.filter (fun r => r.number = w.record.length) = [] :=
      filter_number_eq_nil fun r hr => Nat.ne_of_lt (h.known r hr)
    have hbefore : (m.reports 0 w.changes).filter (fun r => r.number = w.record.length) = [] :=
      filter_number_eq_nil fun r hr => by
        have hbound := (Mesh.number_of_report hr).2
        omega
    rw [htold, hbefore, if_pos rfl]
  · have hlast : (w.record ++ [Entry.mk c place w.underway]).length ≤ k := by
      rw [List.length_append]
      exact hgt
    rw [List.getElem?_eq_none hlast] at hk'
    cases hk'

theorem Consistent.change (h : Consistent m queue programs w)
    (htask : w.tasks[place]? = some ⟨c :: rest, []⟩) :
    Consistent m queue programs (w.change place c rest) where
  tree := by
    rw [changes_change, Mesh.after_concat, Mesh.run_root, Mesh.after_timeout, ← h.tree, ← h.timeout]
    rfl
  timeout := h.timeout
  queued := h.queued
  programs := by
    intro other
    rw [made_change, toDo_change htask, ← h.programs other]
    split
    · rename_i he
      rw [he, toDo, htask, List.append_assoc]
      rfl
    · rfl
  owned := by
    intro other r hr
    rw [unsent_change htask] at hr
    split at hr
    · rename_i he
      rw [number_of_change hr]
      exact ⟨⟨c, place, w.underway⟩, List.getElem?_concat_length, he.symm⟩
    · obtain ⟨entry, hentry, hplace⟩ := h.owned other r hr
      exact ⟨entry, getElem?_record hentry, hplace⟩
  known := by
    intro r hr
    show r.number < (w.record ++ _).length
    rw [List.length_append]
    exact Nat.lt_add_right _ (h.known r hr)
  complete := fun _ _ hk => h.complete_change htask hk
  pending := by
    intro other r hr k hk hlt
    have hk' : k < (w.record ++ [Entry.mk c place w.underway]).length := hk
    rw [List.length_append, List.length_singleton] at hk'
    rw [unsent_change htask] at hr
    split at hr
    · rw [number_of_change hr] at hlt
      omega
    · rcases Nat.lt_succ_iff_lt_or_eq.mp hk' with hk' | rfl
      · exact (h.pending other r hr k hk' hlt).change place c rest
      · exact ⟨⟨c, place, w.underway⟩, List.getElem?_concat_length, mem_underway hr⟩
  ahead := h.ahead.imp fun hrs hlt => (hrs hlt).change place c rest

/-! ## An event that is queued -/

theorem toDo_notify (h : w.tasks[place]? = some ⟨todo, r :: left⟩) (other : Nat) :
    (w.notify place r ⟨todo, left⟩).toDo other = w.toDo other := by
  rw [toDo, notify, getElem?_set_task h, toDo]
  split
  · rename_i he
    rw [he, h]
    rfl
  · rfl

theorem unsent_notify (h : w.tasks[place]? = some ⟨todo, r :: left⟩) (other : Nat) :
    (w.notify place r ⟨todo, left⟩).unsent other =
      if other = place then left else w.unsent other := by
  rw [unsent, notify, getElem?_set_task h]
  split <;> rfl

theorem unsent_of_task (h : w.tasks[place]? = some ⟨todo, r :: left⟩) :
    w.unsent place = r :: left := by
  rw [unsent, h]
  rfl

theorem mem_of_unsent_notify (h : w.tasks[place]? = some ⟨todo, r :: left⟩) {other : Nat}
    {s : Report} (hs : s ∈ (w.notify place r ⟨todo, left⟩).unsent other) : s ∈ w.unsent other := by
  rw [unsent_notify h] at hs
  split at hs
  · rename_i he
    rw [he, unsent_of_task h]
    exact List.mem_cons_of_mem r hs
  · exact hs

theorem Consistent.complete_notify (h : Consistent m queue programs w)
    (htask : w.tasks[place]? = some ⟨todo, r :: left⟩) {k : Nat} {entry : Entry}
    (hk : w.record[k]? = some entry) :
    ((w.told ++ [r]) ++ (w.notify place r ⟨todo, left⟩).unsent entry.place).filter
        (fun r => r.number = k) =
      (m.reports 0 w.changes).filter (fun r => r.number = k) := by
  have hunsent := unsent_of_task htask
  rw [unsent_notify htask, ← h.complete k entry hk]
  by_cases he : entry.place = place
  · rw [if_pos he, he, hunsent, List.append_assoc]
    rfl
  · -- what the other tasks have is of other changes
    obtain ⟨own, hown, hplace⟩ := h.owned place r (hunsent ▸ List.mem_cons_self)
    have hne : ∀ s ∈ [r], s.number ≠ k := by
      intro s hs hsk
      rw [List.mem_singleton.mp hs] at hsk
      rw [hsk] at hown
      exact he (Option.some.inj (hown.symm.trans hk) ▸ hplace)
    rw [if_neg he, List.filter_append, List.filter_append, List.filter_append,
      filter_number_eq_nil hne, List.append_nil]

theorem Consistent.notify (h : Consistent m queue programs w)
    (htask : w.tasks[place]? = some ⟨todo, r :: left⟩) :
    Consistent m queue programs (w.notify place r ⟨todo, left⟩) where
  tree := h.tree
  timeout := h.timeout
  queued := by
    show w.mesh.queue.push r.event = ⟨_ ++ (w.told ++ [r]).map Report.event, true⟩
    rw [h.queued, List.map_append, ← List.append_assoc]
    rfl
  programs := by
    intro other
    rw [toDo_notify htask]
    exact h.programs other
  owned := fun other s hs => h.owned other s (mem_of_unsent_notify htask hs)
  known := by
    intro s hs
    rcases List.mem_append.mp hs with hs | hs
    · exact h.known s hs
    · obtain ⟨_, hown, -⟩ := h.owned place r (unsent_of_task htask ▸ List.mem_cons_self)
      obtain ⟨hlt, -⟩ := List.getElem?_eq_some_iff.mp hown
      exact List.mem_singleton.mp hs ▸ hlt
  complete := fun _ _ hk => h.complete_notify htask hk
  pending := fun other s hs => h.pending other s (mem_of_unsent_notify htask hs)
  ahead := by
    refine List.pairwise_append.mpr ⟨h.ahead, List.pairwise_singleton _ r, fun s hs t ht hlt => ?_⟩
    obtain rfl := List.mem_singleton.mp ht
    exact h.pending place t (unsent_of_task htask ▸ List.mem_cons_self) s.number (h.known s hs) hlt

/-! ## Any steps -/

theorem Consistent.step (h : Consistent m queue programs w) (place : Nat) :
    Consistent m queue programs (w.step place) := by
  have hmove := move_step w place
  generalize w.step place = next at hmove
  cases hmove with
  | rest => exact h
  | changed htask => exact h.change htask
  | notified htask => exact h.notify htask

theorem Consistent.after (h : Consistent m queue programs w) (places : List Nat) :
    Consistent m queue programs (w.after places) := by
  induction places generalizing w with
  | nil => exact h
  | cons place places ih => exact ih (h.step place)

theorem consistent_after (hopen : queue.isOpen = true) (places : List Nat) :
    Consistent m queue programs ((start m queue programs).after places) :=
  (consistent_start hopen).after places

/-! ## When all is done -/

theorem unsent_of_finished (h : w.Finished) (place : Nat) : w.unsent place = [] := by
  rw [unsent]
  cases htask : w.tasks[place]? with
  | none => rfl
  | some task => exact (h task (List.mem_of_getElem? htask)).2

theorem toDo_of_finished (h : w.Finished) (place : Nat) : w.toDo place = [] := by
  rw [toDo]
  cases htask : w.tasks[place]? with
  | none => rfl
  | some task => exact (h task (List.mem_of_getElem? htask)).1

/-- What was queued of a change is what it reports. -/
theorem Consistent.complete_told (h : Consistent m queue programs w) (hdone : w.Finished) (k : Nat) :
    w.told.filter (fun r => r.number = k) =
      (m.reports 0 w.changes).filter (fun r => r.number = k) := by
  cases hk : w.record[k]? with
  | some entry =>
    rw [← h.complete k entry hk, unsent_of_finished hdone, List.append_nil]
  | none =>
    have hle := List.getElem?_eq_none_iff.mp hk
    have hlength : w.changes.length = w.record.length := List.length_map _
    rw [filter_number_eq_nil fun r hr => ?_, filter_number_eq_nil fun r hr => ?_]
    · have hbound := (Mesh.number_of_report hr).2
      omega
    · have hbound := h.known r hr
      omega

/-- Reports are in one order if they are sorted, and those of each change are. -/
theorem eq_of_sorted {a b : List Report} (ha : a.Pairwise (fun r s => r.number ≤ s.number))
    (hb : b.Pairwise (fun r s => r.number ≤ s.number))
    (h : ∀ k, a.filter (fun r => r.number = k) = b.filter (fun r => r.number = k)) : a = b := by
  have hmem : ∀ r, r ∈ a ↔ r ∈ b := by
    intro r
    have hr := congrArg (fun l => r ∈ l) (h r.number)
    simpa using hr
  induction a generalizing b with
  | nil => exact (List.eq_nil_iff_forall_not_mem.mpr fun r hr => List.not_mem_nil ((hmem r).mpr hr)).symm
  | cons r a ih =>
    cases b with
    | nil => exact absurd ((hmem r).mp List.mem_cons_self) List.not_mem_nil
    | cons s b =>
      obtain ⟨hra, harest⟩ := List.pairwise_cons.mp ha
      obtain ⟨hsb, hbrest⟩ := List.pairwise_cons.mp hb
      -- both heads have the least number
      have hle : r.number ≤ s.number := by
        rcases List.mem_cons.mp ((hmem s).mpr List.mem_cons_self) with rfl | hs
        · exact Nat.le_refl _
        · exact hra s hs
      have hge : s.number ≤ r.number := by
        rcases List.mem_cons.mp ((hmem r).mp List.mem_cons_self) with rfl | hr
        · exact Nat.le_refl _
        · exact hsb r hr
      have hnumber := Nat.le_antisymm hge hle
      have hhead := h r.number
      rw [List.filter_cons_of_pos (by simp), List.filter_cons_of_pos (by simpa using hnumber)]
        at hhead
      obtain rfl := (List.cons.inj hhead).1
      have htail : ∀ k, a.filter (fun r => r.number = k) = b.filter (fun r => r.number = k) := by
        intro k
        have hk := h k
        rw [List.filter_cons, List.filter_cons] at hk
        split at hk
        · exact (List.cons.inj hk).2
        · exact hk
      refine congrArg (List.cons r) (ih harest hbrest htail fun t => ?_)
      have ht := congrArg (fun l => t ∈ l) (htail t.number)
      simpa using ht

/-- Reports of which no two changes overlapped are told in the order of their changes. -/
theorem Consistent.serial (h : Consistent m queue programs w) (hdone : w.Finished)
    {P : Report → Bool} (hserial : w.Serial P) :
    w.told.filter P = (m.reports 0 w.changes).filter P := by
  refine eq_of_sorted ?_ ?_ fun k => ?_
  · refine List.pairwise_filter.mpr (h.ahead.imp_of_mem fun {r s} hr hs hrs hPr hPs => ?_)
    exact Nat.le_of_not_lt fun hlt => hserial s hs r hr hPs hPr (hrs hlt)
  · exact (Mesh.reports_sorted m 0 w.changes).filter P
  · have hcomplete := h.complete_told hdone k
    rw [List.filter_filter, List.filter_filter]
    calc (w.told.filter fun r => decide (r.number = k) && P r)
        = (w.told.filter fun r => decide (r.number = k)).filter P := by
          rw [List.filter_filter]
          exact List.filter_congr fun r _ => Bool.and_comm _ _
      _ = ((m.reports 0 w.changes).filter fun r => decide (r.number = k)).filter P := by
          rw [hcomplete]
      _ = (m.reports 0 w.changes).filter fun r => decide (r.number = k) && P r := by
          rw [List.filter_filter]
          exact List.filter_congr fun r _ => Bool.and_comm _ _

end Writers
end FleetMesh
