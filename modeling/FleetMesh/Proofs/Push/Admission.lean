/-
How machines come onto the lists and leave them.

Whatever a call or a decision does to the two lists and to the file is made of moves
of the one machine that it names (`step_moves`).  A move begins or ends the waiting
of a machine, or it writes the file and the list of allowed machines together.  So
what holds of the lists along a run is shown for each kind of move, and does not
look at the calls again.
-/
import FleetMesh.Proofs.Push.Effect
import Mathlib.Logic.Relation

namespace FleetMesh
namespace Push

/-- What an authority knows without its sessions: the lists, the room for those that
wait, and the file. -/
structure Lists where
  limit : Nat
  waiting : List (String × String)
  allowed : List (String × String)
  ledger : Ledger

def Authority.lists (a : Authority) : Lists :=
  ⟨a.limit, a.roster.waiting, a.roster.allowed, a.ledger⟩

/-- One move of a machine. -/
inductive Move (uuid : String) (l : Lists) : Lists → Prop
  /-- A machine that nobody knows begins to wait. -/
  | queue {hostname : String} (named : isValidUuid uuid = true)
    (shown : isValidHostname hostname = true) (stranger : Keyed.contains uuid l.allowed = false)
    (idle : Keyed.contains uuid l.waiting = false) (room : l.waiting.length < l.limit) :
    Move uuid l { l with waiting := Keyed.insert uuid hostname l.waiting }
  /-- A machine that waits is allowed. -/
  | approve {hostname : String} {ledger : Ledger}
    (waits : Keyed.find? uuid l.waiting = some hostname)
    (written : l.ledger.write (AllowedList.render (Keyed.insert uuid hostname l.allowed))
      = some ledger) :
    Move uuid l { l with
      waiting := Keyed.erase uuid l.waiting
      allowed := Keyed.insert uuid hostname l.allowed
      ledger := ledger }
  /-- The waiting ends. -/
  | leave : Move uuid l { l with waiting := Keyed.erase uuid l.waiting }
  /-- A machine is not allowed any more. -/
  | expel {ledger : Ledger}
    (written : l.ledger.write (AllowedList.render (Keyed.erase uuid l.allowed)) = some ledger) :
    Move uuid l { l with allowed := Keyed.erase uuid l.allowed, ledger := ledger }

/-- Any moves of a machine, one after the other. -/
abbrev Moves (uuid : String) : Lists → Lists → Prop := Relation.ReflTransGen (Move uuid)

/-- What every move of a machine keeps is kept by its moves. -/
theorem Moves.keep {P : Lists → Prop} {uuid : String} {l l' : Lists} (h : Moves uuid l l')
    (hmove : ∀ k k', P k → Move uuid k k' → P k') (hl : P l) : P l' := by
  induction h with
  | refl => exact hl
  | tail _ hm ih => exact hmove _ _ ih hm

/-- The machine that a call is presented under. -/
def Call.caller? : Call → Option String
  | getCertificate => none
  | register who | getSignature who | hello who => some who.uuid
  | update what => some what.uuid
  | goodbye who => some who.uuid

/-- A call in order is presented under an identifier in order. -/
theorem Call.valid_caller {c : Call} {uuid : String} (hc : c.caller? = some uuid)
    (h : c.validate = .ok ()) : isValidUuid uuid = true := by
  cases hcheck : checkUuid uuid with
  | ok u => exact checkUuid_eq_ok.mp hcheck
  | error f =>
    cases c with
    | getCertificate => cases hc
    | register who | getSignature who | hello who | update what | goodbye who =>
      obtain rfl := Option.some.inj hc
      rw [validate, hcheck] at h
      cases h

theorem valid_of_register {who : Greeting} (h : (Call.register who).validate = .ok ()) :
    isValidUuid who.uuid = true ∧ isValidHostname who.hostname = true := by
  have hu : isValidUuid who.uuid = true := Call.valid_caller rfl h
  refine ⟨hu, ?_⟩
  rw [Call.validate, checkUuid_eq_ok.mpr hu] at h
  exact checkHostname_eq_ok.mp h

/-! ## The authority -/

namespace Authority

theorem moves_enroll (a : Authority) {uuid hostname : String} (hu : isValidUuid uuid = true)
    (hh : isValidHostname hostname = true) :
    Moves uuid a.lists (a.enroll uuid hostname).1.lists := by
  rw [enroll]
  split
  · exact .refl
  · rename_i hunknown
    rw [Bool.not_eq_true, Bool.or_eq_false_iff] at hunknown
    split
    · exact .refl
    · rename_i hroom
      exact .single (.queue hu hh hunknown.1 hunknown.2 (Nat.lt_of_not_le hroom))

theorem moves_allow (a : Authority) (uuid : String) :
    Moves uuid a.lists (a.allow uuid).1.lists := by
  rw [allow]
  split
  · exact .refl
  · rename_i hostname hwaits
    split
    · exact .refl
    · rename_i b hb
      obtain ⟨ledger, hwritten, rfl⟩ := adopt_eq_some hb
      exact .single (.approve hwaits hwritten)

/-- A machine that is forgotten does not wait any more, and it is not allowed any
more if that can be written down. -/
theorem moves_dismiss (a : Authority) (uuid : String) :
    Moves uuid a.lists (a.dismiss uuid).1.lists := by
  rw [dismiss]
  split
  · exact .refl
  · split
    · exact .single .leave
    · dsimp only
      split
      · rename_i b hb
        obtain ⟨ledger, hwritten, rfl⟩ := adopt_eq_some hb
        exact .tail (.single .leave) (.expel hwritten)
      · exact .single .leave

end Authority

/-! ## The server -/

namespace Server

variable {who : Greeting}

theorem moves_register (s : Server) (hu : isValidUuid who.uuid = true)
    (hh : isValidHostname who.hostname = true) :
    Moves who.uuid s.authority.lists (s.register who).1.authority.lists := by
  have henroll := Authority.moves_enroll s.authority hu hh
  rw [← enroll_authority] at henroll
  rcases register_cases s who with he | he | he
  · rw [he]
  · rw [he]
    exact henroll
  · rw [he]
    exact henroll.trans (Authority.moves_allow _ who.uuid)

theorem lists_hello (s : Server) (who : Greeting) (clock : Int) :
    (s.hello who clock).1.authority.lists = s.authority.lists := by
  rcases hello_cases s who clock with he | ⟨_, _, he⟩
  · rw [he]
  · rw [he]
    rfl

theorem lists_goodbye (s : Server) (who : Credentials) :
    (s.goodbye who).1.authority.lists = s.authority.lists := by
  rcases goodbye_cases s who with he | ⟨_, _, he⟩
  · rw [he]
  · rw [he]
    rfl

theorem lists_update (s : Server) (what : Delivery) (clock now : Int) :
    (s.update what clock now).1.authority.lists = s.authority.lists := by
  rcases update_cases s what clock now with ⟨_, hu⟩ | ⟨_, _, ⟨_, hu⟩ | ⟨_, hu⟩⟩
  · rw [hu]
  · rw [hu]
    rfl
  · rw [hu, deliver_authority]

/-- A call moves nobody but the machine that it is presented under. -/
theorem moves_handleAt (s : Server) (c : Call) (clock now : Int) :
    (s.handleAt c clock now).1.authority.lists = s.authority.lists ∨
      ∃ uuid, c.caller? = some uuid ∧
        Moves uuid s.authority.lists (s.handleAt c clock now).1.authority.lists := by
  rw [handleAt]
  split
  · exact Or.inl rfl
  · rename_i valid
    cases c with
    | getCertificate => exact Or.inl rfl
    | register who =>
      obtain ⟨hu, hh⟩ := valid_of_register valid
      exact Or.inr ⟨who.uuid, rfl, moves_register s hu hh⟩
    | getSignature who => exact Or.inl rfl
    | hello who => exact Or.inl (lists_hello s who clock)
    | update what => exact Or.inl (lists_update s what clock now)
    | goodbye who => exact Or.inl (lists_goodbye s who)

/-- A step moves one machine, unless it is the file or its disk that changes. -/
theorem step_moves (s : Server) (input : Input) :
    (∃ uuid, Moves uuid s.authority.lists (s.step input).1.authority.lists) ∨
      ∃ ledger, input = .disk ledger ∧
        (s.step input).1.authority.lists = { s.authority.lists with ledger := ledger } := by
  cases input with
  | call c clock now =>
    refine Or.inl ?_
    show ∃ uuid, Moves uuid s.authority.lists (s.handleAt c clock now).1.authority.lists
    rcases moves_handleAt s c clock now with he | ⟨uuid, _, h⟩
    · rw [he]
      exact ⟨"", .refl⟩
    · exact ⟨uuid, h⟩
  | allow uuid => exact Or.inl ⟨uuid, Authority.moves_allow s.authority uuid⟩
  | revoke uuid =>
    refine Or.inl ⟨uuid, ?_⟩
    show Moves uuid s.authority.lists (s.revoke uuid).1.authority.lists
    rw [revoke_authority]
    exact Authority.moves_dismiss s.authority uuid
  | change c => exact Or.inl ⟨"", .refl⟩
  | disk ledger => exact Or.inr ⟨ledger, rfl, rfl⟩

end Server

end Push
end FleetMesh
