/-
What is left of a machine that was forgotten while others were served.

To forget a machine takes two turns: the authority strikes it from the lists and
closes its session, and then its snapshot is removed from the tree.  Handlers that
look afterwards find nothing.  One that looked before does not look again: a hello
whose machine was allowed still gives out a token, and an update whose token was
good still stores its snapshot (`crossing_undone`).  There is no other way in which
anything of the machine comes back while it is not allowed
(`World.revoked_unless_in_flight`).
-/
import FleetMesh.Proofs.Push.Turns

namespace FleetMesh
namespace Push

variable {s : Server} {uuid : String}

/-! ## The two turns -/

/-- The authority's turn when a machine is forgotten, and that is written down. -/
theorem Task.dismissed_of_step {clock : Int}
    (h : ((Task.revoking uuid).step s clock).2 = .removing uuid (.ok ())) :
    (s.authority.dismiss uuid).2 = some (.ok ()) ∧
      ((Task.revoking uuid).step s clock).1.authority = (s.authority.dismiss uuid).1 := by
  rw [step] at h ⊢
  generalize s.authority.dismiss uuid = r at h ⊢
  obtain ⟨a, _ | result⟩ := r
  · cases h
  · obtain ⟨_, rfl⟩ := Task.removing.inj h
    exact ⟨rfl, rfl⟩

/-- Once a machine is forgotten, and that is written down, it is not allowed. -/
theorem Authority.not_allowed_of_dismiss {a : Authority} (h : Keyed.Ordered a.roster.allowed)
    (hok : (a.dismiss uuid).2 = some (.ok ())) : (a.dismiss uuid).1.isAllowed uuid = false := by
  rw [dismiss] at hok ⊢
  split
  · rename_i hunknown
    exact (Bool.not_eq_true' _).mp (Bool.and_eq_true_iff.mp hunknown).2
  · rename_i hknown
    rw [if_neg hknown] at hok
    dsimp only at hok ⊢
    split
    · rename_i hnot
      exact (Bool.not_eq_true' _).mp hnot
    · rename_i hallowed
      rw [if_neg hallowed] at hok
      split
      · rename_i b hb
        obtain ⟨ledger, _, rfl⟩ := adopt_eq_some hb
        show Keyed.contains uuid (Keyed.erase uuid a.roster.allowed) = false
        rw [Keyed.contains, Keyed.find?_erase h, if_pos rfl]
        rfl
      · rename_i hb
        rw [hb] at hok
        cases hok

namespace World

variable {w v : World}

/-! ## After the authority's turn -/

/-- What is known of a machine that was struck from the lists in a world: only
hellos that were past their check then can give it a token. -/
structure Contained (w v : World) (uuid : String) : Prop where
  greeter : ∀ place, v.greeter? place = some uuid → w.greeter? place = some uuid
  session : ∀ token e, v.server.session? uuid token = some e →
    ∃ place, w.greeter? place = some uuid ∧
      v.tasks[place]? = some (.answered (.ok (.token token)))

theorem Contained.step (h : Contained w v uuid) (hv : Tidy v.server)
    (hnot : v.server.authority.isAllowed uuid = false) (t : Turn) :
    Contained w (v.step t) uuid := by
  have houtcome := v.step_outcome t
  generalize v.step t = after at houtcome
  cases houtcome with
  | joined idle =>
    refine ⟨fun place hg => h.greeter place ?_, fun token e he => ?_⟩
    · rwa [greeter?, bind_join idle.greeter] at hg
    · obtain ⟨place, hg, hgiven⟩ := h.session token e he
      exact ⟨place, hg, getElem?_join hgiven _⟩
  | passed hs _ =>
    refine ⟨h.greeter, fun token e he => h.session token e ?_⟩
    rwa [Server.session?, Roster.session?, hs.sessions] at he
  | changed c => exact ⟨h.greeter, h.session⟩
  | @acted place clock task stood =>
    have hdeed := task.step_deed v.server clock
    have hbefore : task.greeter? = some uuid → w.greeter? place = some uuid := fun hg =>
      h.greeter place ((greeter?_of_stood stood).trans hg)
    refine ⟨fun other hg => ?_, fun token e he => ?_⟩
    · rcases bind_set hg with ⟨rfl, hnext⟩ | hold
      -- a hello that looks only now finds that the machine is not allowed
      · rcases hdeed.checked.greeter uuid hnext with hg | hallowed
        · exact hbefore hg
        · exact absurd (hnot.symm.trans hallowed) Bool.false_ne_true
      · exact h.greeter other hold
    · rcases hdeed.session hv.sessions he with he | ⟨hg, hgiven⟩
      · obtain ⟨other, hg, hgiven⟩ := h.session token e he
        exact ⟨other, hg, answered_set stood clock hgiven⟩
      · refine ⟨place, hbefore hg, ?_⟩
        rw [hgiven]
        exact getElem?_set_stood stood _

/-- The turn in which the authority forgets a machine. -/
theorem contained_of_dismissed (h : Tidy w.server) {place : Nat} {clock : Int}
    (hrevoke : w.tasks[place]? = some (.revoking uuid))
    (hok : (w.step (.task place clock)).tasks[place]? = some (.removing uuid (.ok ()))) :
    Contained w (w.step (.task place clock)) uuid ∧
      (w.step (.task place clock)).server.authority.isAllowed uuid = false := by
  rw [stands_acted hrevoke clock] at hok
  obtain ⟨hdone, hauthority⟩ := Task.dismissed_of_step (Option.some.inj hok)
  have hnot := Authority.not_allowed_of_dismiss h.listed hdone
  rw [step_acted hrevoke clock]
  refine ⟨⟨fun other hg => ?_, fun token e he => ?_⟩, by rw [hauthority]; exact hnot⟩
  · rcases bind_set hg with ⟨_, hnext⟩ | hold
    · rw [Option.some.inj hok] at hnext
      cases hnext
    · exact hold
  · obtain ⟨hfind, hid⟩ := session?_eq_some.mp he
    rcases Authority.dismiss_cases w.server.authority uuid with ⟨hunknown, _⟩ | hdismissed
    · rw [hunknown] at hdone
      cases hdone
    · rw [hauthority, hdismissed.sessions] at hfind
      exact absurd hid ((Roster.find?_dropSessions h.sessions).mp hfind).2

/-- The machine is not allowed after the turn. -/
def Unlisted (uuid : String) (v : World) (t : Turn) : Prop :=
  (v.step t).server.authority.isAllowed uuid = false

instance (uuid : String) (v : World) (t : Turn) : Decidable (Unlisted uuid v t) :=
  inferInstanceAs (Decidable ((v.step t).server.authority.isAllowed uuid = false))

theorem Contained.turns {P : World → Turn → Prop} (hP : ∀ u t, P u t → Unlisted uuid u t)
    {u : World} (h : Contained w v uuid) (hv : v.Reachable)
    (hnot : v.server.authority.isAllowed uuid = false) (hturns : Turns P v u) :
    Contained w u uuid ∧ u.server.authority.isAllowed uuid = false := by
  induction hturns with
  | refl => exact ⟨h, hnot⟩
  | step hbefore t ht ih =>
    exact ⟨ih.1.step (hv.turns hbefore).tidy ih.2 t, hP _ t ht⟩

theorem Contained.no_session (h : Contained w v uuid)
    (hnone : ∀ place, w.greeter? place ≠ some uuid) (token : String) : v.server.session? uuid token = none := by
  cases hsession : v.server.session? uuid token with
  | none => rfl
  | some e =>
    obtain ⟨place, hg, _⟩ := h.session token e hsession
    exact absurd hg (hnone place)

/-! ## After the tree's turn -/

/-- The machine is in the tree no more, and nobody is about to put it there. -/
structure Gone (v : World) (uuid : String) : Prop where
  deliverer : ∀ place, v.deliverer? place ≠ some uuid
  child : v.server.mesh.root.alive? uuid = none

end World

/-- The machine whose snapshot another writer of the tree stores. -/
def Turn.reported? : Turn → Option String
  | change (.merge node _) => some node.uuid
  | _ => none

namespace World

variable {w v : World}

theorem Gone.step (h : Gone v uuid) (hv : Tidy v.server)
    (hnone : ∀ token, v.server.session? uuid token = none) {t : Turn}
    (ht : t.reported? ≠ some uuid) : Gone (v.step t) uuid := by
  have houtcome := v.step_outcome t
  generalize v.step t = after at houtcome
  cases houtcome with
  | joined idle =>
    refine ⟨fun place hd => h.deliverer place ?_, h.child⟩
    rwa [deliverer?, bind_join idle.deliverer] at hd
  | passed _ tree => exact ⟨h.deliverer, tree ▸ h.child⟩
  | changed c =>
    refine ⟨h.deliverer, Mesh.alive?_run_of_absent hv.tree h.child fun node now hc hid => ht ?_⟩
    rw [hc, ← hid]
    rfl
  | @acted place clock task stood =>
    have hdeed := task.step_deed v.server clock
    have hbefore : task.deliverer? ≠ some uuid := fun hd =>
      h.deliverer place ((deliverer?_of_stood stood).trans hd)
    refine ⟨fun other hd => ?_, ?_⟩
    · rcases bind_set hd with ⟨_, hnext⟩ | hold
      -- an update that looks only now finds no session
      · rcases hdeed.checked.deliverer uuid hnext with hd | ⟨token, e, he⟩
        · exact hbefore hd
        · rw [hnone token] at he
          cases he
      · exact h.deliverer other hold
    · exact hdeed.absent hv.tree h.child hbefore

/-- The turn in which the machine's snapshot is removed. -/
theorem gone_of_removed (h : Tidy w.server) {place : Nat} {result : Except AuthorityError Unit}
    (hattached : w.server.attached = true) (clock : Int)
    (hremoving : w.tasks[place]? = some (.removing uuid result))
    (hnone : ∀ other, w.deliverer? other ≠ some uuid) :
    Gone (w.step (.task place clock)) uuid := by
  rw [step_acted hremoving clock]
  refine ⟨fun other hd => ?_, ?_⟩
  · rcases bind_set hd with ⟨_, hnext⟩ | hold
    · cases hnext
    · exact hnone other hold
  · rw [Task.step, hattached]
    show (w.server.mesh.run (.dropChild uuid)).root.alive? uuid = none
    rw [Mesh.run_root]
    exact Node.alive?_dropChild_self h.tree.sound.inOrder.ordered uuid

/-- The machine is not allowed after the turn, and it was not reported. -/
def Unheard (uuid : String) (v : World) (t : Turn) : Prop :=
  Unlisted uuid v t ∧ t.reported? ≠ some uuid

theorem Gone.turns {u : World} (h : Gone v uuid) (hcontained : Contained w v uuid)
    (hnone : ∀ place, w.greeter? place ≠ some uuid) (hv : v.Reachable)
    (hnot : v.server.authority.isAllowed uuid = false) (hturns : Turns (Unheard uuid) v u) :
    Gone u uuid := by
  induction hturns with
  | refl => exact h
  | step hbefore t ht ih =>
    have hnow := (hcontained.turns (fun _ _ ht => ht.1) hv hnot hbefore).1
    exact ih.step (hv.turns hbefore).tidy (hnow.no_session hnone) ht.2

/-- A machine is forgotten by a handler's two turns, with any turns of others before,
between and after, and it is not allowed again nor reported by another writer of the
tree.  Then whoever has a token for it got it by a hello that was past its check in
the first of the two turns.  And if the machine is in the tree, there was such a
hello, or an update that was past its check in the second turn. -/
theorem revoked_unless_in_flight {w₁ w₂ : World} {place : Nat} {clock later : Int}
    (h : w.Reachable) (hrevoke : w.tasks[place]? = some (.revoking uuid))
    (hok : (w.step (.task place clock)).tasks[place]? = some (.removing uuid (.ok ())))
    (hbetween : Turns (Unlisted uuid) (w.step (.task place clock)) w₁)
    (hremoving : w₁.tasks[place]? = some (.removing uuid (.ok ())))
    (hattached : w₁.server.attached = true)
    (hsince : Turns (Unheard uuid) (w₁.step (.task place later)) w₂) :
    (∀ token e, w₂.server.session? uuid token = some e →
      ∃ other, w.greeter? other = some uuid ∧
        w₂.tasks[other]? = some (.answered (.ok (.token token)))) ∧
    (Keyed.contains uuid w₂.server.mesh.root.children = true →
      ∃ other, w.greeter? other = some uuid ∨ w₁.deliverer? other = some uuid) := by
  have hfirst := h.step (.task place clock)
  have hsecond := hfirst.turns hbetween
  have hthird := hsecond.step (.task place later)
  obtain ⟨hdismissed, hnot⟩ := contained_of_dismissed h.tidy hrevoke hok
  obtain ⟨hmiddle, hnot⟩ := hdismissed.turns (fun _ _ ht => ht) hfirst hnot hbetween
  have hremoved := hmiddle.step hsecond.tidy hnot (.task place later)
  have hnot : (w₁.step (.task place later)).server.authority.isAllowed uuid = false := by
    rw [step_acted hremoving later]
    exact hnot
  refine ⟨(hremoved.turns (fun _ _ ht => ht.1) hthird hnot hsince).1.session, fun hchild => ?_⟩
  -- with no handler in flight there is no session any more, and so no new update either
  by_contra hnone
  obtain ⟨hgreeter, hdeliverer⟩ : (∀ other, w.greeter? other ≠ some uuid) ∧
      ∀ other, w₁.deliverer? other ≠ some uuid :=
    ⟨fun other hg => hnone ⟨other, Or.inl hg⟩, fun other hd => hnone ⟨other, Or.inr hd⟩⟩
  have hgone := gone_of_removed hsecond.tidy hattached later hremoving hdeliverer
  have hend := (hgone.turns hremoved hgreeter hthird hnot hsince).child
  obtain ⟨child, hchild⟩ := Option.isSome_iff_exists.mp hchild
  rw [Node.alive?, hchild] at hend
  cases hend

/-! ## A machine that comes back -/

/-- A machine has a session, and its update has found the token good.  Its next hello
has found it allowed when it is decided to forget it. -/
def crossing : World :=
  after ⟨emptyServer, []⟩
    [.call (.register ⟨"host", "u", []⟩) 990, .task 0 990, .task 0 990, .task 0 990,
      .allow "u", .task 1 995,
      .call (.hello ⟨"host", "u", [1]⟩) 1000, .task 2 1000, .task 2 1000, .task 2 1000,
      .call (.update ⟨"u", "k",
        "\x7b\"uuid\":\"u\",\"local_host\":\x7b\"name\":\"\"\x7d\x7d"⟩) 1005,
      .task 3 1005, .task 3 1005,
      .call (.hello ⟨"host", "u", [1]⟩) 1006, .task 4 1006, .revoke "u"]

/-- The authority forgets the machine. -/
def struck : World := crossing.step (.task 5 1007)

/-- And then the machine is removed from the tree. -/
def forgotten : World := struck.step (.task 5 1007)

/-- The update and the hello have their remaining turns. -/
def undone : World := forgotten.after [.task 3 1008, .task 4 1008, .task 4 1008]

theorem crossing_reachable : crossing.Reachable := by
  have hstart : Authority.start emptyServer.authority.signer "" 8 growingMint 0 (.ofContents none)
      = .ok emptyServer.authority := rfl
  have hrun : Run [] emptyServer := .start hstart _ _ _
  exact Reachable.after (.start hrun (.new "r" "root" "" 0 60)) _

theorem forgotten_undone : Turns (Unheard "u") forgotten undone :=
  .step (.step (.step .refl (.task 3 1008) ⟨by decide +kernel, nofun⟩)
    (.task 4 1008) ⟨by decide +kernel, nofun⟩) (.task 4 1008) ⟨by decide +kernel, nofun⟩

theorem crossing_in_flight :
    crossing.Reachable ∧ crossing.tasks[5]? = some (.revoking "u") ∧
      struck.tasks[5]? = some (.removing "u" (.ok ())) ∧ struck.server.attached = true ∧
      Turns (Unlisted "u") struck struck ∧ Turns (Unheard "u") forgotten undone ∧
      (∀ token e, undone.server.session? "u" token = some e →
        ∃ other, crossing.greeter? other = some "u" ∧
          undone.tasks[other]? = some (.answered (.ok (.token token)))) ∧
      (Keyed.contains "u" undone.server.mesh.root.children = true →
        ∃ other, crossing.greeter? other = some "u" ∨ struck.deliverer? other = some "u") := by
  have hrevoke : crossing.tasks[5]? = some (.revoking "u") := by decide
  have hstruck : struck.tasks[5]? = some (.removing "u" (.ok ())) := by decide
  have hattached : struck.server.attached = true := by decide
  exact ⟨crossing_reachable, hrevoke, hstruck, hattached, .refl, forgotten_undone,
    @revoked_unless_in_flight "u" crossing struck undone 5 1007 1007 crossing_reachable hrevoke
      hstruck .refl hstruck hattached forgotten_undone⟩

/-- Forgetting a machine is not final.  It was done with success, and without the
machine being allowed or reported again there is a new token for it, and its snapshot
is in the tree. -/
theorem crossing_undone :
    crossing.Reachable ∧ crossing.tasks[5]? = some (.revoking "u") ∧
      forgotten.tasks[5]? = some (.decided (.ok ())) ∧
      forgotten.server.authority.isAllowed "u" = false ∧ Turns (Unheard "u") forgotten undone ∧
      undone.server.session? "u" "kk" = some ⟨"u", 1008⟩ ∧
      Keyed.contains "u" undone.server.mesh.root.children = true :=
  ⟨crossing_reachable, by decide, by decide, by decide, forgotten_undone, by decide +kernel,
    by decide +kernel⟩

end World
end Push
end FleetMesh
