/-
Runs of a machine that pushes, and what its files hold on the way.

A course begins with any address and any files and goes on with any signals, each in
a setting that says which files can be used at the moment: what the other side
answers, when it falls silent, when the client is cancelled and when it notices are all
left open.
While the client rests its files may change in any way, so that a write that failed
may have left anything.

`Course.kept` says what the phase tells of the files: the certificate is asked for only
if there is none, and a signature only if there is none.
-/
import FleetMesh.Proofs.Push.Client.Moves

namespace FleetMesh
namespace Push
namespace Client

/-- One step of a course: the client before it, and what it was given. -/
structure Occasion where
  client : Client
  setting : Setting
  signal : Signal

namespace Occasion

def after (o : Occasion) : Client := (o.client.step o.setting o.signal).1

def acts (o : Occasion) : List Act := (o.client.step o.setting o.signal).2

end Occasion

/-- The courses of a client, the latest step first, with the client they lead to. -/
inductive Course : List Occasion → Client → Prop
  | start (address : String) (secured : Bool) (certificate signature : Option (List UInt8)) :
    Course [] (start address secured certificate signature).1
  | step {past : List Occasion} {c : Client} (h : Course past c) (w : Setting) (signal : Signal) :
    Course (⟨c, w, signal⟩ :: past) (c.step w signal).1
  | altered {past : List Occasion} {c : Client} (h : Course past c) (rests : c.phase = .resting)
    (certificate signature : Option (List UInt8)) :
    Course past { c with certificate := certificate, signature := signature }

/-- A course that goes on with some signals. -/
def recorded (c : Client) (past : List Occasion) : List (Setting × Signal) → List Occasion
  | [] => past
  | (w, signal) :: rest => (c.step w signal).1.recorded (⟨c, w, signal⟩ :: past) rest

/-- A small machine whose files can be used. -/
def openSetting : Setting := ⟨Node.new "u" "h" "" 0, ⟨true, true, true⟩, ⟨true, true, true⟩⟩

variable {c d : Client} {w : Setting} {signal : Signal} {acts : List Act} {past : List Occasion}
  {file : Option (List UInt8)} {phase : Phase} {call : Call}

theorem Course.run (h : Course past c) (inputs : List (Setting × Signal)) :
    Course (c.recorded past inputs) (c.run inputs).1 := by
  induction inputs generalizing past c with
  | nil => exact h
  | cons input rest ih => exact ih (h.step input.1 input.2)

theorem recorded_append (xs ys : List (Setting × Signal)) :
    c.recorded past (xs ++ ys) = (c.run xs).1.recorded (c.recorded past xs) ys := by
  induction xs generalizing past c with
  | nil => rfl
  | cons input rest ih => exact ih

theorem recorded_eq_append (inputs : List (Setting × Signal)) :
    c.recorded past inputs = c.recorded [] inputs ++ past := by
  induction inputs generalizing past c with
  | nil => rfl
  | cons input rest ih =>
    have hfirst : (c.step input.1 input.2).1.recorded [⟨c, input.1, input.2⟩] rest =
        (c.step input.1 input.2).1.recorded [] rest ++ [⟨c, input.1, input.2⟩] := ih
    rw [recorded, ih, recorded, hfirst, List.append_assoc]
    rfl

/-! ## Files -/

/-- There is no file, or nothing is in it. -/
def Blank (file : Option (List UInt8)) : Prop := file = none ∨ file = some []

theorem blank_iff_filter : Blank file ↔ file.filter (· ≠ []) = none := by
  cases file with
  | none => exact iff_of_true (Or.inl rfl) rfl
  | some bytes =>
    cases bytes with
    | nil => exact iff_of_true (Or.inr rfl) rfl
    | cons b bytes => exact iff_of_false (by rintro (h | h) <;> cases h) (by simp)

theorem contents_eq {a : Access} {text : Option (List UInt8)} (h : contents? a file = some text) :
    text.isSome = true ↔ ¬ Blank file := by
  rw [contents?] at h
  split at h
  · obtain rfl := Option.some.inj h
    rw [blank_iff_filter]
    exact Option.isSome_iff_ne_none
  · cases h

/-- What the client has to have before it sends anything but the request for it. -/
def Pinned (c : Client) : Prop := c.secured = true → ¬ Blank c.certificate

/-- What the files hold in a phase. -/
def Kept (c : Client) : Prop :=
  match c.phase with
  | .securing pinned => c.secured = true ∧ (pinned = true ↔ ¬ Blank c.certificate)
  | .fetching => c.secured = true ∧ Blank c.certificate
  | .registering | .asking | .pausing => c.Pinned ∧ Blank c.signature
  | .greeting => c.Pinned ∧ ¬ Blank c.signature
  | _ => True

theorem Kept.of_phase (h : c.Kept) (hphase : c.phase = phase) :
    Kept { c with phase := phase } := by
  subst hphase
  exact h

theorem Kept.pinned (h : c.Kept) (ht : c.Trusts) : c.Pinned := by
  intro hs
  rcases ht with ⟨_, hopen⟩ | hphase
  · rw [hs] at hopen
    cases hopen
  · exact (h.of_phase hphase).2.mp rfl

theorem Kept.prompt (h : c.Kept) (hp : Prompt c w signal phase call) :
    Kept { c with phase := phase } := by
  cases hp with
  | fetch hphase =>
    obtain ⟨hs, hfile⟩ := h.of_phase hphase
    exact ⟨hs, Classical.not_not.mp (fun hn => Bool.false_ne_true (hfile.mpr hn))⟩
  | register ht hfile =>
    exact ⟨h.pinned ht, Classical.not_not.mp (fun hn => by cases (contents_eq hfile).mpr hn)⟩
  | hello ht hfile => exact ⟨h.pinned ht, (contents_eq hfile).mp rfl⟩
  | ask hphase _ _ => exact (h.of_phase hphase :)
  | askAgain hphase => exact (h.of_phase hphase :)
  | update _ _ => exact trivial
  | leave _ _ => exact trivial

theorem Kept.move (h : c.Kept) (hm : Move c w signal d acts) : d.Kept := by
  cases hm with
  | still cancelled _ => exact h
  | secure _ hs _ hfile => exact ⟨hs, contents_eq hfile⟩
  | call _ hp => exact h.prompt hp
  | pause hphase _ _ _ => exact (h.of_phase hphase :)
  | idle _ _ => exact trivial
  | reconnect _ => exact trivial
  | retry _ _ => exact trivial
  | giveUp _ => exact trivial
  | finish _ => exact trivial
  | bootAndFinish _ => exact trivial

theorem Course.kept (h : Course past c) : c.Kept := by
  induction h with
  | start => exact trivial
  | step h w signal ih => exact ih.move (step_move _ w signal)
  | altered h hrests certificate signature ih =>
    rw [Kept, hrests]
    exact trivial

end Client
end Push
end FleetMesh
