/-
The allowed machines in memory and in the file.

A list is written before it takes effect, and a list that cannot be written takes no
effect.  So while nobody else writes the file, it tells after every step of a run
the machines that are allowed (`Run.file_in_step`), and an authority that starts
anew from it allows the same ones.  For that every entry of the lists must be one
that can be read back, which is what the check of a call sees to.
-/
import FleetMesh.Proofs.Push.AllowedList
import FleetMesh.Proofs.Push.Lists

namespace FleetMesh
namespace Push

open AllowedList (Plain)

namespace Ledger

variable {l l' : Ledger} {allowed : List (String × String)}

theorem readable_of_allowed? (h : l.allowed? = some allowed) : l.readable = true := by
  rw [allowed?] at h
  split at h
  · cases h
  · rename_i hr
    exact (Bool.not_eq_false _).mp fun hno => hr (by rw [hno]; rfl)

theorem allowed?_congr (hcontents : l'.contents = l.contents)
    (hreadable : l'.readable = l.readable) : l'.allowed? = l.allowed? := by
  rw [allowed?, allowed?, hcontents, hreadable]

theorem plain_of_mem_allowed? (h : l.allowed? = some allowed) {entry : String × String}
    (he : entry ∈ allowed) : Plain entry := by
  rw [allowed?] at h
  split at h
  · cases h
  · split at h
    · obtain rfl := Option.some.inj h
      exact absurd he List.not_mem_nil
    · obtain ⟨text, _, rfl⟩ := Option.map_eq_some_iff.mp h
      exact AllowedList.plain_of_mem_parse he

/-- What was written is read back. -/
theorem allowed?_write (hr : l.readable = true) (hord : Keyed.Ordered allowed)
    (hplain : ∀ entry ∈ allowed, Plain entry)
    (hwritten : l.write (AllowedList.render allowed) = some l') :
    l'.allowed? = some (Keyed.mapValues Text.trim allowed) := by
  rw [write] at hwritten
  split at hwritten
  · obtain rfl := Option.some.inj hwritten
    rw [allowed?, hr]
    show (Text.decode? (Text.bytesOf _)).map AllowedList.parse = _
    rw [Text.decode?_bytesOf, Option.map_some, AllowedList.parse_render hord hplain]
  · cases hwritten

end Ledger

theorem Authority.start_of_told {ledger : Ledger} {told : List (String × String)}
    (h : ledger.allowed? = some told) (signer : Signer) (certificate : String) (limit : Nat)
    (mint : Nat → String) (minted : Nat) :
    Authority.start signer certificate limit mint minted ledger =
      .ok ⟨signer, certificate, limit, mint, minted, .ofAllowed told, ledger⟩ := by
  rw [Authority.start, h]

/-- Whether the file tells who is allowed, and could tell it of those that wait. -/
structure Lists.InStep (l : Lists) : Prop where
  listed : Keyed.Ordered l.allowed
  waiting : ∀ entry ∈ l.waiting, Plain entry
  allowed : ∀ entry ∈ l.allowed, Plain entry
  file : ∃ told, l.ledger.allowed? = some told ∧ Keyed.keys told = Keyed.keys l.allowed

namespace Lists.InStep

variable {l l' : Lists} {uuid : String}

/-- The list and the file after both were changed together. -/
theorem write (h : l.InStep) {waiting allowed : List (String × String)} {ledger : Ledger}
    (hwaiting : ∀ entry ∈ waiting, Plain entry) (hord : Keyed.Ordered allowed)
    (hallowed : ∀ entry ∈ allowed, Plain entry)
    (hwritten : l.ledger.write (AllowedList.render allowed) = some ledger) :
    Lists.InStep { l with waiting := waiting, allowed := allowed, ledger := ledger } := by
  obtain ⟨told, htold, _⟩ := h.file
  refine ⟨hord, hwaiting, hallowed, _, ?_, Keyed.keys_mapValues Text.trim allowed⟩
  exact Ledger.allowed?_write (Ledger.readable_of_allowed? htold) hord hallowed hwritten

theorem move (h : l.InStep) (hm : Move uuid l l') : l'.InStep := by
  have hleft : ∀ entry ∈ Keyed.erase uuid l.waiting, Plain entry :=
    fun entry he => h.waiting entry (Keyed.mem_of_mem_erase he)
  cases hm with
  | @queue hostname named shown stranger idle room =>
    refine ⟨h.listed, fun entry he => ?_, h.allowed, h.file⟩
    rcases Keyed.mem_insert he with rfl | he
    · exact AllowedList.plain_of_valid named shown
    · exact h.waiting entry he
  | @approve hostname ledger waits written =>
    refine h.write hleft (Keyed.ordered_insert h.listed uuid hostname) (fun entry he => ?_) written
    rcases Keyed.mem_insert he with rfl | he
    · exact h.waiting _ (Keyed.mem_of_find? waits)
    · exact h.allowed entry he
  | leave => exact ⟨h.listed, hleft, h.allowed, h.file⟩
  | @expel ledger written =>
    exact h.write h.waiting (Keyed.ordered_erase h.listed uuid)
      (fun entry he => h.allowed entry (Keyed.mem_of_mem_erase he)) written

end Lists.InStep

/-! ## Runs -/

variable {past : List Moment} {s : Server}

/-- Whether the file holds what it held: if something happens to it from outside, it
is only that it can or cannot be written any more. -/
def Moment.sparesFile (m : Moment) : Bool :=
  match m.input with
  | .disk ledger =>
    ledger.contents == m.before.authority.ledger.contents &&
      ledger.readable == m.before.authority.ledger.readable
  | _ => true

theorem Run.inStep (h : Run past s) (hpast : ∀ m ∈ past, m.sparesFile = true) :
    s.authority.lists.InStep := by
  induction h with
  | start h mesh autoAccept attached =>
    obtain ⟨hlisted, _⟩ := start_roster h
    rw [Authority.start] at h
    split at h
    · cases h
    · rename_i allowed hallowed
      obtain rfl := Except.ok.inj h
      exact ⟨hlisted, fun entry he => absurd he List.not_mem_nil,
        fun entry he => Ledger.plain_of_mem_allowed? hallowed he, allowed, hallowed, rfl⟩
  | @step past s h input ih =>
    obtain ⟨hnow, hpast⟩ := List.forall_mem_cons.mp hpast
    have hbefore := ih hpast
    rcases Server.step_moves s input with ⟨uuid, hmoves⟩ | ⟨ledger, hinput, he⟩
    · exact hmoves.keep (fun _ _ hk hm => hk.move hm) hbefore
    · subst hinput
      obtain ⟨hcontents, hreadable⟩ := Bool.and_eq_true_iff.mp hnow
      obtain ⟨told, htold, hkeys⟩ := hbefore.file
      have hsame := Ledger.allowed?_congr (eq_of_beq hcontents) (eq_of_beq hreadable)
      rw [he]
      exact ⟨hbefore.listed, hbefore.waiting, hbefore.allowed, told, hsame.trans htold, hkeys⟩

/-- While nobody else writes the file, it tells exactly the machines that are allowed,
and so does an authority that starts anew from it. -/
theorem Run.file_in_step (h : Run past s) (hpast : ∀ m ∈ past, m.sparesFile = true) :
    ∃ told, s.authority.ledger.allowed? = some told ∧
      (∀ uuid, Keyed.contains uuid told = s.authority.isAllowed uuid) ∧
      ∃ a, s.authority.restart = .ok a ∧
        ∀ uuid, a.isAllowed uuid = s.authority.isAllowed uuid := by
  obtain ⟨told, htold, hkeys⟩ := (h.inStep hpast).file
  have hsame : ∀ uuid, Keyed.contains uuid told = s.authority.isAllowed uuid := by
    intro uuid
    rw [Bool.eq_iff_iff, Keyed.contains_iff_mem_keys, hkeys]
    exact Keyed.contains_iff_mem_keys.symm
  exact ⟨told, htold, hsame, _, Authority.start_of_told htold _ _ _ _ _, hsame⟩

/-- A file written by hand, with a line of another form in it. -/
def handLedger : Ledger :=
  .ofContents (some [117, 32, 32, 100, 98, 32, 49, 32, 10, 103, 97, 114, 98, 97, 103, 101, 10])

def handServer : Server :=
  { emptyServer with authority :=
    { emptyServer.authority with roster := .ofAllowed [("u", "db 1")], ledger := handLedger } }

theorem handServer_run : Run [] handServer := by
  have htold : handLedger.allowed? = some [("u", "db 1")] := by decide +kernel
  exact .start (Authority.start_of_told htold _ _ _ _ _) _ _ _

/-- A machine registers, and is allowed only when the file can be written again; then
the one of the file is forgotten. -/
def mendedDisk : List Moment × Server :=
  continued [] handServer
    [.call (.register ⟨" host ", "v", []⟩) 990 990,
      .disk { handLedger with writable := false }, .allow "v", .disk handLedger, .allow "v",
      .revoke "u"]

theorem mendedDisk_file_in_step :
    Run mendedDisk.1 mendedDisk.2 ∧ (∀ m ∈ mendedDisk.1, m.sparesFile = true) ∧
      mendedDisk.2.authority.roster.allowed = [("v", " host ")] ∧
      ∃ told, mendedDisk.2.authority.ledger.allowed? = some told ∧
        (∀ uuid, Keyed.contains uuid told = mendedDisk.2.authority.isAllowed uuid) ∧
        ∃ a, mendedDisk.2.authority.restart = .ok a ∧
          ∀ uuid, a.isAllowed uuid = mendedDisk.2.authority.isAllowed uuid := by
  have hpast : ∀ m ∈ mendedDisk.1, m.sparesFile = true := by decide
  have hrun : Run mendedDisk.1 mendedDisk.2 := handServer_run.continued _
  exact ⟨hrun, hpast, by decide, hrun.file_in_step hpast⟩

end Push
end FleetMesh
