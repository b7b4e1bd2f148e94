/-
What one turn of a handler can do.

The turns of all handlers are of few kinds, which `Deed` lists, as `Effect` lists the
steps of a run.  A hello gets past the check that its machine is allowed, and an
update past the check of its token, in a turn in which the check is good
(`Deed.checked`).  From then on the handler knows what it found, and does not look
again.  `Outcome` says the same of a world with all its handlers.
-/
import FleetMesh.Proofs.Liveness.Run
import FleetMesh.Proofs.Push.Session
import FleetMesh.Proofs.Push.Tasks

namespace FleetMesh
namespace Push

variable {s t : Server} {task next : Task} {uuid token : String} {e : Session}

/-! ## One turn of a handler -/

namespace Task

/-- The machine whose hello found it allowed. -/
def greeter? : Task → Option String
  | greeted who | verified who => some who.uuid
  | _ => none

/-- The machine whose update found its token good. -/
def deliverer? : Task → Option String
  | authenticated what _ _ | delivering what => some what.uuid
  | _ => none

/-- Whether a handler that is past a check was so before, or the check is good now. -/
structure Checked (s : Server) (task next : Task) : Prop where
  greeter : ∀ uuid, next.greeter? = some uuid →
    task.greeter? = some uuid ∨ s.authority.isAllowed uuid = true
  deliverer : ∀ uuid, next.deliverer? = some uuid →
    task.deliverer? = some uuid ∨ ∃ token e, s.session? uuid token = some e

/-- A handler that is past neither check. -/
structure Idle (task : Task) : Prop where
  greeter : task.greeter? = none
  deliverer : task.deliverer? = none

theorem idle_answered (answer : Except Failure Reply) : (answered answer).Idle := ⟨rfl, rfl⟩

theorem idle_enrolled (s : Server) (who : Greeting) : (enrolled s who).Idle := by
  rw [enrolled]
  split <;> exact ⟨rfl, rfl⟩

theorem Idle.checked (h : next.Idle) : Checked s task next where
  greeter := fun _ hg => nomatch h.greeter.symm.trans hg
  deliverer := fun _ hd => nomatch h.deliverer.symm.trans hd

theorem checked_greeted {who : Greeting} (h : s.authority.isAllowed who.uuid = true) :
    Checked s task (.greeted who) where
  greeter := fun _ hg => Or.inr (Option.some.inj hg ▸ h)
  deliverer := nofun

theorem checked_verified (s : Server) (who : Greeting) :
    Checked s (.greeted who) (.verified who) where
  greeter := fun _ hg => Or.inl hg
  deliverer := nofun

theorem checked_authenticated {what : Delivery} {now : Int}
    (h : s.session? what.uuid what.token = some e) :
    Checked s task (.authenticated what now e) where
  greeter := nofun
  deliverer := fun _ hd => Or.inr ⟨what.token, e, Option.some.inj hd ▸ h⟩

theorem checked_delivering (s : Server) (what : Delivery) (now : Int) (session : Session) :
    Checked s (.authenticated what now session) (.delivering what) where
  greeter := nofun
  deliverer := fun _ hd => Or.inl hd

theorem checked_start (s : Server) (c : Call) (now : Int) :
    Checked s (.arrived c now) (start s now c) := by
  cases c with
  | getCertificate => exact (idle_answered _).checked
  | register who =>
    rw [start]
    split
    · exact (idle_answered _).checked
    · exact Idle.checked ⟨rfl, rfl⟩
  | getSignature who =>
    rw [start]
    split
    · exact (idle_answered _).checked
    · exact Idle.checked ⟨rfl, rfl⟩
    · exact (idle_answered _).checked
  | hello who =>
    rw [start]
    split
    · exact (idle_answered _).checked
    · rename_i hallowed
      exact checked_greeted ((Bool.not_eq_false _).mp fun h => hallowed (by rw [h]; rfl))
  | update what =>
    rw [start]
    split
    · exact (idle_answered _).checked
    · exact checked_authenticated (Authority.session_eq_ok.mp ‹_›)
  | goodbye who =>
    rw [start]
    split
    · exact (idle_answered _).checked
    · exact Idle.checked ⟨rfl, rfl⟩

end Task

/-- What a turn does to the server, with what is known of the handler after it. -/
inductive Deed (s : Server) : Task → Server → Task → Prop
  | spared {task next : Task} {t : Server} (h : Spares s.authority t.authority)
    (tree : t.mesh.root = s.mesh.root) (checked : Task.Checked s task next) : Deed s task t next
  | opened {who : Greeting} {clock : Int} :
    Deed s (.verified who) { s with authority := (s.authority.openSession who.uuid clock).1 }
      (.answered (.ok (.token (s.authority.openSession who.uuid clock).2)))
  | closed {task : Task} (token : String) (answer : Except Failure Reply) :
    Deed s task { s with authority := (s.authority.closeSession token).1 } (.answered answer)
  | dismissed {uuid : String} {t : Server} {next : Task}
    (h : Authority.Dismissed s.authority t.authority uuid) (tree : t.mesh.root = s.mesh.root)
    (idle : next.Idle) : Deed s (.revoking uuid) t next
  | changed {task next : Task} (c : Change) (idle : next.Idle)
    (merges : ∀ node now, c = .merge node now → task.deliverer? = some node.uuid) :
    Deed s task { s with mesh := s.mesh.run c } next

namespace Task

/-- A turn that leaves the server as it is. -/
theorem deed_stays (h : Checked s task next) : Deed s task s next := .spared (.refl _) rfl h

theorem deed_enrolling (s : Server) (clock : Int) (who : Greeting) :
    Deed s (.enrolling who) (step s clock (.enrolling who)).1
      (step s clock (.enrolling who)).2 := by
  have hspares := Authority.enroll_spares s.authority who.uuid who.hostname
  rw [step]
  generalize s.authority.enroll who.uuid who.hostname = r at hspares
  obtain ⟨a, e | isNew⟩ := r
  · cases e <;> exact .spared hspares rfl (idle_answered _).checked
  · cases isNew with
    | true => exact .spared hspares rfl (Idle.checked ⟨rfl, rfl⟩)
    | false => exact .spared hspares rfl (idle_enrolled s who).checked

theorem deed_accepting (s : Server) (clock : Int) (who : Greeting) :
    Deed s (.accepting who) (step s clock (.accepting who)).1
      (step s clock (.accepting who)).2 := by
  have hspares := Server.allow_spares s who.uuid
  have htree : (s.allow who.uuid).1.mesh.root = s.mesh.root := rfl
  rw [step]
  generalize s.allow who.uuid = r at hspares htree
  obtain ⟨t, e | ⟨⟩⟩ := r <;> exact .spared hspares htree (idle_answered _).checked

theorem deed_delivering (s : Server) (clock : Int) (what : Delivery) :
    Deed s (.delivering what) (s.deliver what clock).1 (.answered (s.deliver what clock).2) := by
  rcases Server.deliver_cases s what clock with ⟨f, hf⟩ | ⟨node, _, hid, hn⟩
  · rw [hf]
    exact deed_stays (idle_answered _).checked
  · rw [hn]
    refine .changed (.merge node clock) (idle_answered _) fun node' now h => ?_
    obtain ⟨rfl, rfl⟩ := Change.merge.inj h
    exact congrArg some hid.symm

theorem deed_revoking (s : Server) (clock : Int) (uuid : String) :
    Deed s (.revoking uuid) (step s clock (.revoking uuid)).1
      (step s clock (.revoking uuid)).2 := by
  have hdismiss := Authority.dismiss_cases s.authority uuid
  rw [step]
  generalize s.authority.dismiss uuid = r at hdismiss
  rcases hdismiss with ⟨rfl, _⟩ | hdismissed
  · exact deed_stays (Idle.checked ⟨rfl, rfl⟩)
  · obtain ⟨a, _ | result⟩ := r <;> exact .dismissed hdismissed rfl ⟨rfl, rfl⟩

theorem deed_removing (s : Server) (clock : Int) (uuid : String)
    (result : Except AuthorityError Unit) :
    Deed s (.removing uuid result) (step s clock (.removing uuid result)).1 (.decided result) := by
  have hdrop : ∀ node now, Change.dropChild uuid = .merge node now →
      (removing uuid result).deliverer? = some node.uuid := nofun
  rw [step]
  dsimp only
  split
  · exact .changed (.dropChild uuid) ⟨rfl, rfl⟩ hdrop
  · exact deed_stays (Idle.checked ⟨rfl, rfl⟩)

theorem step_deed (s : Server) (clock : Int) (task : Task) :
    Deed s task (task.step s clock).1 (task.step s clock).2 := by
  cases task with
  | arrived c now =>
    rw [step]
    split
    · exact deed_stays (idle_answered _).checked
    · exact deed_stays (checked_start s c now)
  | enrolling who => exact deed_enrolling s clock who
  | announcing who =>
    refine .spared (.refl _) ?_ (idle_enrolled s who).checked
    rw [step]
    dsimp only
    split <;> rfl
  | accepting who => exact deed_accepting s clock who
  | refusing who => exact deed_stays (idle_answered _).checked
  | greeted who =>
    rw [step]
    split
    · exact deed_stays (idle_answered _).checked
    · exact deed_stays (checked_verified s who)
  | verified who => exact .opened
  | authenticated what now session =>
    rw [step]
    split
    · exact deed_stays (Idle.checked ⟨rfl, rfl⟩)
    · exact deed_stays (checked_delivering s what now session)
  | expiring what => exact .closed what.token _
  | delivering what => exact deed_delivering s clock what
  | leaving who => exact .closed who.token _
  | answered answer => exact deed_stays (idle_answered _).checked
  | allowing uuid =>
    exact .spared (Server.allow_spares s uuid) rfl (Idle.checked ⟨rfl, rfl⟩)
  | revoking uuid => exact deed_revoking s clock uuid
  | removing uuid result => exact deed_removing s clock uuid result
  | decided result => exact deed_stays (Idle.checked ⟨rfl, rfl⟩)

end Task

/-! ## What every turn keeps -/

/-- Nobody gets past a check but by a check that is good. -/
theorem Deed.checked (h : Deed s task t next) : Task.Checked s task next := by
  cases h with
  | spared _ _ checked => exact checked
  | opened => exact (Task.idle_answered _).checked
  | closed => exact (Task.idle_answered _).checked
  | dismissed _ _ idle => exact idle.checked
  | changed _ idle _ => exact idle.checked

/-- Nobody gets a session but by a hello that found its machine allowed. -/
theorem Deed.session (h : Deed s task t next) (hord : Keyed.Ordered s.authority.roster.sessions)
    (he : t.session? uuid token = some e) :
    s.session? uuid token = some e ∨
      task.greeter? = some uuid ∧ next = .answered (.ok (.token token)) := by
  obtain ⟨hfind, hid⟩ := session?_eq_some.mp he
  cases h with
  | spared hs _ _ =>
    rw [hs.sessions] at hfind
    exact Or.inl (session?_eq_some.mpr ⟨hfind, hid⟩)
  | @opened who clock =>
    rcases (Roster.find?_openSession hord clock).mp hfind with ⟨rfl, rfl⟩ | ⟨_, hfind, _⟩
    · exact Or.inr ⟨congrArg some hid, rfl⟩
    · exact Or.inl (session?_eq_some.mpr ⟨hfind, hid⟩)
  | closed other =>
    exact Or.inl (session?_eq_some.mpr ⟨((Roster.find?_closeSession hord).mp hfind).1, hid⟩)
  | dismissed hd _ _ =>
    rw [hd.sessions] at hfind
    exact Or.inl (session?_eq_some.mpr ⟨((Roster.find?_dropSessions hord).mp hfind).1, hid⟩)
  | changed => exact Or.inl he

/-- What every turn keeps: the tables are in order, and so is the tree. -/
structure Tidy (s : Server) : Prop where
  sessions : Keyed.Ordered s.authority.roster.sessions
  listed : Keyed.Ordered s.authority.roster.allowed
  tree : s.mesh.root.Coherent

theorem Tidy.of_spares (h : Tidy s) (hs : Spares s.authority t.authority)
    (tree : t.mesh.root = s.mesh.root) : Tidy t :=
  ⟨hs.sessions ▸ h.sessions, hs.listed h.listed, tree ▸ h.tree⟩

theorem Tidy.run (h : Tidy s) (c : Change) : Tidy { s with mesh := s.mesh.run c } :=
  ⟨h.sessions, h.listed, Mesh.coherent_run h.tree c⟩

theorem Deed.tidy (h : Deed s task t next) (hs : Tidy s) : Tidy t := by
  cases h with
  | spared hspares tree _ => exact hs.of_spares hspares tree
  | @opened who clock =>
    exact ⟨Keyed.ordered_insert (Roster.ordered_dropSessions hs.sessions who.uuid) _ _, hs.listed,
      hs.tree⟩
  | closed other => exact ⟨Keyed.ordered_erase hs.sessions other, hs.listed, hs.tree⟩
  | @dismissed uuid _ _ hd tree _ =>
    refine ⟨?_, hd.listed hs.listed, tree ▸ hs.tree⟩
    rw [hd.sessions]
    exact Roster.ordered_dropSessions hs.sessions uuid
  | changed c _ _ => exact hs.run c

/-- Nobody becomes a child of the root but by an update that found its token good. -/
theorem Deed.absent (h : Deed s task t next) (hs : s.mesh.root.Coherent)
    (habsent : s.mesh.root.alive? uuid = none) (htask : task.deliverer? ≠ some uuid) :
    t.mesh.root.alive? uuid = none := by
  cases h with
  | spared _ tree _ => exact tree ▸ habsent
  | opened => exact habsent
  | closed => exact habsent
  | dismissed _ tree _ => exact tree ▸ habsent
  | changed c _ merges =>
    refine Mesh.alive?_run_of_absent hs habsent fun node now hc hid => htask ?_
    rw [merges node now hc, hid]

/-! ## One turn of the world -/

/-- What the next turn makes of a world. -/
inductive Outcome (w : World) : Turn → World → Prop
  | joined {t : Turn} {task : Task} (idle : task.Idle) : Outcome w t (w.join task)
  | acted {place : Nat} {clock : Int} {task : Task} (stood : w.tasks[place]? = some task) :
    Outcome w (.task place clock)
      ⟨(task.step w.server clock).1, w.tasks.set place (task.step w.server clock).2⟩
  | passed {t : Turn} {s : Server} (h : Spares w.server.authority s.authority)
    (tree : s.mesh = w.server.mesh) : Outcome w t { w with server := s }
  | changed (c : Change) :
    Outcome w (.change c) { w with server := { w.server with mesh := w.server.mesh.run c } }

namespace World

variable {w v : World}

/-- The machine whose hello a handler is doing that found it allowed. -/
def greeter? (w : World) (place : Nat) : Option String := w.tasks[place]?.bind Task.greeter?

/-- The machine whose update a handler is doing that found its token good. -/
def deliverer? (w : World) (place : Nat) : Option String := w.tasks[place]?.bind Task.deliverer?

theorem step_outcome (w : World) (t : Turn) : Outcome w t (w.step t) := by
  cases t with
  | call c now => exact .joined ⟨rfl, rfl⟩
  | allow uuid => exact .joined ⟨rfl, rfl⟩
  | revoke uuid => exact .joined ⟨rfl, rfl⟩
  | task place clock =>
    rw [step]
    split
    · exact .passed (.refl _) rfl
    · exact .acted ‹_›
  | change c => exact .changed c
  | disk ledger => exact .passed ⟨rfl, rfl, rfl, id, fun _ => id⟩ rfl

theorem tidy_step (h : Tidy w.server) (t : Turn) : Tidy (w.step t).server := by
  have houtcome := w.step_outcome t
  generalize w.step t = v at houtcome
  cases houtcome with
  | joined => exact h
  | @acted place clock task _ => exact (task.step_deed w.server clock).tidy h
  | passed hs tree => exact h.of_spares hs (congrArg Mesh.root tree)
  | changed c => exact h.run c

theorem Reachable.tidy (h : w.Reachable) : Tidy w.server := by
  induction h with
  | start h hmesh => exact ⟨h.held.ordered, h.held.listed, hmesh.coherent⟩
  | step _ t ih => exact tidy_step ih t

/-! ### Who is past a check -/

theorem greeter?_of_stood {place : Nat} (stood : w.tasks[place]? = some task) :
    w.greeter? place = task.greeter? := by
  rw [greeter?, stood]
  rfl

theorem deliverer?_of_stood {place : Nat} (stood : w.tasks[place]? = some task) :
    w.deliverer? place = task.deliverer? := by
  rw [deliverer?, stood]
  rfl

theorem bind_join {f : Task → Option String} (h : f task = none) (w : World) (place : Nat) :
    (w.join task).tasks[place]?.bind f = w.tasks[place]?.bind f := by
  rw [join, List.getElem?_append]
  split
  · rfl
  · rename_i hge
    rw [List.getElem?_eq_none (Nat.le_of_not_lt hge)]
    cases place - w.tasks.length with
    | zero => exact h
    | succ n => rfl

theorem bind_set {f : Task → Option String} {place other : Nat}
    (h : (w.tasks.set place next)[other]?.bind f = some uuid) :
    place = other ∧ f next = some uuid ∨ w.tasks[other]?.bind f = some uuid := by
  rw [List.getElem?_set] at h
  split at h
  · split at h
    · exact Or.inl ⟨‹_›, h⟩
    · cases h
  · exact Or.inr h

/-! ### Where the handlers stand -/

theorem getElem?_join {place : Nat} (h : w.tasks[place]? = some task) (other : Task) :
    (w.join other).tasks[place]? = some task := by
  obtain ⟨hlt, _⟩ := List.getElem?_eq_some_iff.mp h
  rw [join, List.getElem?_append_left hlt, h]

theorem getElem?_set_stood {place : Nat} (stood : w.tasks[place]? = some task) (next : Task) :
    (w.tasks.set place next)[place]? = some next := by
  obtain ⟨hlt, _⟩ := List.getElem?_eq_some_iff.mp stood
  exact List.getElem?_set_self hlt

/-- An answer stays an answer. -/
theorem answered_set {place other : Nat} (stood : w.tasks[place]? = some task) (clock : Int)
    {answer : Except Failure Reply} (h : w.tasks[other]? = some (.answered answer)) :
    (w.tasks.set place (task.step w.server clock).2)[other]? = some (.answered answer) := by
  by_cases hplace : place = other
  · subst hplace
    obtain rfl := Option.some.inj (stood.symm.trans h)
    exact getElem?_set_stood stood _
  · rwa [List.getElem?_set_ne hplace]

theorem step_acted {place : Nat} (stood : w.tasks[place]? = some task) (clock : Int) :
    w.step (.task place clock) =
      ⟨(task.step w.server clock).1, w.tasks.set place (task.step w.server clock).2⟩ := by
  rw [step, stood]

theorem stands_acted {place : Nat} (stood : w.tasks[place]? = some task) (clock : Int) :
    (w.step (.task place clock)).tasks[place]? = some (task.step w.server clock).2 := by
  rw [step_acted stood clock]
  exact getElem?_set_stood stood _

end World
end Push
end FleetMesh
