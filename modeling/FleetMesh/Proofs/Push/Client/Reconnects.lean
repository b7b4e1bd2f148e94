/-
How often a machine that pushes starts over without a wait.

`row` holds the connections that were given up for another one at once since the client
last rested.  Each of them ended with a `Bootstrap`, and what that left in the files
says which one can follow (`Follows`): the certificate is fetched only if there is none,
and a signature is given only if there is none and refused only if there is one.

Some rows have no end.  A signature that is refused and cannot be removed is refused
again, an empty one is given again, and one that is given can be refused at once.
`Course.row_length_le` bounds the others, and counts each signature that was given in
vain; `storms_endless` has a row as long as one likes of each kind.
-/
import FleetMesh.Proofs.Push.Client.Course
import Mathlib.Data.List.Chain

namespace FleetMesh
namespace Push

/-- A bootstrap that can come right after an earlier one. -/
inductive Bootstrap.Follows : Bootstrap → Bootstrap → Prop
  | refused (removed : Bool) : Follows (.signatureDropped removed) .certificateStored
  | given (bytes : List UInt8) : Follows (.signatureStored bytes) .certificateStored
  | renewed (bytes : List UInt8) : Follows (.signatureStored bytes) (.signatureDropped true)
  | stuck (removed : Bool) : Follows (.signatureDropped removed) (.signatureDropped false)
  | vain (removed : Bool) {bytes : List UInt8} (h : bytes ≠ []) :
    Follows (.signatureDropped removed) (.signatureStored bytes)
  | empty (bytes : List UInt8) : Follows (.signatureStored bytes) (.signatureStored [])

namespace Client

/-- The acts begin another connection, and the client did not rest before it. -/
def hastens (c : Client) (acts : List Act) : Bool :=
  acts.any (fun | .connect => true | _ => false) && c.phase != .resting

namespace Occasion

/-- The connection is given up for another one at once. -/
def hasty (o : Occasion) : Bool := o.client.hastens o.acts

/-- The bootstrap that a signal brings. -/
def bootstrap? (o : Occasion) : Option Bootstrap :=
  match o.signal with
  | .answered ⟨_, .ok (.certificate _)⟩ => some .certificateStored
  | .answered ⟨_, .error .notAllowed⟩ => some (.signatureDropped o.setting.signatureFile.remove)
  | .answered ⟨_, .ok (.signature bytes)⟩ => some (.signatureStored bytes)
  | _ => none

end Occasion

/-- The connections given up for another one at once since the client last rested, the
latest first. -/
def row : List Occasion → List Occasion
  | [] => []
  | o :: past =>
    if o.after.phase = .resting then [] else if o.hasty then o :: row past else row past

/-- What they ended with. -/
def bootstraps (past : List Occasion) : List Bootstrap := (row past).filterMap Occasion.bootstrap?

variable {c d : Client} {w : Setting} {signal : Signal} {acts : List Act} {past : List Occasion}
  {o : Occasion} {b : Bootstrap} {rs : List Occasion}

/-! ## What a row consists of -/

/-- What a bootstrap leaves in the files. -/
def Leaves (c : Client) (b : Bootstrap) : Prop :=
  c.Pinned ∧ match b with
    | .certificateStored => True
    | .signatureDropped removed => removed = true ↔ Blank c.signature
    | .signatureStored bytes => c.signature = some bytes

theorem Leaves.of_files (h : c.Leaves b) (secured : d.secured = c.secured)
    (certificate : d.certificate = c.certificate) (signature : d.signature = c.signature) :
    d.Leaves b := by
  unfold Leaves Pinned
  rw [secured, certificate, signature]
  exact h

/-- The signal tells the bootstrap. -/
theorem Boot.bootstrap? (h : Boot c w signal b d) :
    Occasion.bootstrap? ⟨c, w, signal⟩ = some b := by
  cases h with
  | @certificate r _ _ _ _ hresult =>
    obtain ⟨id, result⟩ := r
    obtain rfl := hresult
    rfl
  | @dropped r _ _ hresult =>
    obtain ⟨id, result⟩ := r
    obtain rfl := hresult
    rfl
  | @signature r _ _ _ hresult =>
    obtain ⟨id, result⟩ := r
    obtain rfl := hresult
    rfl

theorem certificate?_nil : Pem.certificate? [] = none := by decide +kernel

theorem Boot.leaves (h : Boot c w signal b d) (hk : c.Kept) : d.Leaves b := by
  cases h with
  | @certificate _ pem pin hphase _ _ hloads =>
    refine ⟨fun _ hblank => ?_, trivial⟩
    rcases hblank with hblank | hblank
    · cases hblank
    · rw [show some (Text.bytesOf pem) = some [] from hblank, Tls.Pin.ofPem,
        certificate?_nil] at hloads
      cases hloads
  | dropped hphase _ _ =>
    obtain ⟨hpinned, hfull⟩ := hk.of_phase hphase
    refine ⟨hpinned, ?_⟩
    dsimp only
    cases w.signatureFile.remove with
    | true => exact iff_of_true rfl (Or.inl rfl)
    | false => exact iff_of_false Bool.false_ne_true hfull
  | signature hphase _ _ => exact ⟨(hk.of_phase hphase).1, rfl⟩

/-- What an earlier bootstrap left is what the next one finds. -/
theorem Boot.follows {a : Bootstrap} (h : Boot c w signal b d) (hk : c.Kept) (hl : c.Leaves a) :
    b.Follows a := by
  obtain ⟨hpinned, hl⟩ := hl
  cases h with
  | certificate hphase _ _ _ =>
    obtain ⟨hsecured, hblank⟩ := hk.of_phase hphase
    exact absurd hblank (hpinned hsecured)
  | dropped hphase _ _ =>
    have hfull : ¬ Blank c.signature := (hk.of_phase hphase).2
    cases a with
    | certificateStored => exact .refused _
    | signatureDropped removed =>
      obtain rfl : removed = false := eq_false_of_ne_true (fun hr => hfull (hl.mp hr))
      exact .stuck _
    | signatureStored bytes =>
      exact .vain _ (fun hempty => hfull (Or.inr (hl.trans (congrArg some hempty))))
  | signature hphase _ _ =>
    have hblank : Blank c.signature := (hk.of_phase hphase).2
    cases a with
    | certificateStored => exact .given _
    | signatureDropped removed =>
      obtain rfl : removed = true := hl.mpr hblank
      exact .renewed _
    | signatureStored bytes =>
      obtain rfl : bytes = [] := by
        rcases hblank with hnone | hempty
        · cases hl.symm.trans hnone
        · exact Option.some.inj (hl.symm.trans hempty)
      exact .empty _

/-! ## Rows -/

theorem Prompt.running {phase : Phase} {call : Call} (h : Prompt c w signal phase call) :
    c.phase ≠ .stopped := by
  cases h with
  | register h _ | hello h _ => rcases h with ⟨h, _⟩ | h <;> rw [h] <;> exact Phase.noConfusion
  | fetch h | ask h _ _ | askAgain h | update h _ | leave h _ => rw [h]; exact Phase.noConfusion

/-- A step that neither rests nor gives the connection up for another one at once
keeps the files, if it does not stop. -/
theorem Move.keeps (h : Move c w signal d acts) (slow : c.hastens acts = false)
    (rests : d.phase ≠ .resting) (stops : d.phase ≠ .stopped) :
    c.phase ≠ .stopped ∧ d.secured = c.secured ∧ d.certificate = c.certificate ∧
      d.signature = c.signature := by
  cases h with
  | still _ _ => exact ⟨stops, rfl, rfl, rfl⟩
  | secure hphase _ _ _ => exact ⟨by rw [hphase]; exact Phase.noConfusion, rfl, rfl, rfl⟩
  | call _ hp => exact ⟨hp.running, rfl, rfl, rfl⟩
  | pause hphase _ _ _ => exact ⟨by rw [hphase]; exact Phase.noConfusion, rfl, rfl, rfl⟩
  | idle _ hc =>
    rcases hc.2 with ⟨hphase, _⟩ | ⟨hphase, _⟩ <;>
      exact ⟨by rw [hphase]; exact Phase.noConfusion, rfl, rfl, rfl⟩
  | reconnect hb =>
    cases hb with
    | certificate hphase | dropped hphase | signature hphase => simp [hastens, hphase] at slow
  | retry hphase _ => exact ⟨by rw [hphase]; exact Phase.noConfusion, rfl, rfl, rfl⟩
  | giveUp _ => exact absurd rfl rests
  | finish _ => exact absurd rfl stops
  | bootAndFinish _ => exact absurd rfl stops

theorem Move.hurries (h : Move c w signal d acts) (hasty : c.hastens acts = true) :
    ∃ b e, Boot c w signal b e ∧ d = { e with phase := .opening, sent := 0 } := by
  cases h with
  | reconnect hb => exact ⟨_, _, hb, rfl⟩
  | retry hphase _ => simp [hastens, hphase] at hasty
  | _ => simp [hastens] at hasty

/-- Every connection of a row ended with a bootstrap that could follow the one before, and
the files are as the latest one left them. -/
structure Paced (c : Client) (rs : List Occasion) : Prop where
  rested : c.phase = .resting → rs = []
  told : (rs.filterMap Occasion.bootstrap?).length = rs.length
  chained : (rs.filterMap Occasion.bootstrap?).IsChain Bootstrap.Follows
  left : c.phase ≠ .stopped → ∀ b ∈ (rs.filterMap Occasion.bootstrap?).head?, c.Leaves b

namespace Paced

theorem nil (c : Client) : c.Paced [] where
  rested := fun _ => rfl
  told := rfl
  chained := .nil
  left := fun _ _ hb => by cases hb

theorem hurry (h : c.Paced rs) (hk : c.Kept) (hb : Boot c w signal b d) :
    Paced { d with phase := .opening, sent := 0 } (⟨c, w, signal⟩ :: rs) := by
  have hcons : (⟨c, w, signal⟩ :: rs).filterMap Occasion.bootstrap? =
      b :: rs.filterMap Occasion.bootstrap? :=
    List.filterMap_cons_some hb.bootstrap?
  have hrunning : c.phase ≠ .stopped := by
    cases hb with
    | certificate hphase | dropped hphase | signature hphase =>
      rw [hphase]
      exact Phase.noConfusion
  refine Paced.mk (fun hphase => by cases hphase) ?_ ?_ ?_
  · rw [hcons, List.length_cons, h.told, List.length_cons]
  · rw [hcons, List.isChain_cons]
    exact ⟨fun a ha => hb.follows hk (h.left hrunning a ha), h.chained⟩
  · intro _ a ha
    rw [hcons] at ha
    obtain rfl := Option.some.inj ha
    exact (hb.leaves hk).of_files rfl rfl rfl

theorem next (h : o.client.Paced rs) (hk : o.client.Kept) :
    o.after.Paced
      (if o.after.phase = .resting then [] else if o.hasty then o :: rs else rs) := by
  have hm : Move o.client o.setting o.signal o.after o.acts := step_move _ _ _
  split
  · exact nil _
  · rename_i hrests
    split
    · rename_i hhasty
      obtain ⟨b, e, hb, hafter⟩ := hm.hurries hhasty
      rw [hafter]
      exact h.hurry hk hb
    · rename_i hslow
      -- Only a bootstrap writes, so the files are still as the latest one left them.
      refine ⟨fun hphase => absurd hphase hrests, h.told, h.chained, fun hstops a ha => ?_⟩
      obtain ⟨hrunning, hsecured, hcertificate, hsignature⟩ :=
        hm.keeps (eq_false_of_ne_true hslow) hrests hstops
      exact (h.left hrunning a ha).of_files hsecured hcertificate hsignature

end Paced

theorem Course.paced (h : Course past c) : c.Paced (row past) := by
  induction h with
  | start => exact .nil _
  | step h w signal ih => exact ih.next (o := ⟨_, w, signal⟩) h.kept
  | altered h hrests certificate signature ih =>
    -- Files change only at rest, when there is no row that they could matter to.
    rw [ih.rested hrests]
    exact .nil _

/-! ## How long a row is -/

/-- How many signatures were given and refused on the very next connection. -/
def regrets : List Bootstrap → Nat
  | .signatureDropped _ :: .signatureStored bytes :: earlier =>
    regrets (.signatureStored bytes :: earlier) + 1
  | _ :: earlier => regrets earlier
  | [] => 0

/-- What a row can have come to, if no signature was given in vain. -/
def allowance : Bootstrap → Nat
  | .certificateStored => 1
  | .signatureDropped _ => 2
  | .signatureStored _ => 3

theorem length_le_allowance {earlier : List Bootstrap}
    (h : (b :: earlier).IsChain Bootstrap.Follows)
    (given : .signatureStored [] ∉ earlier) (removed : .signatureDropped false ∉ earlier) :
    (b :: earlier).length ≤ allowance b + 2 * regrets (b :: earlier) := by
  induction earlier generalizing b with
  | nil =>
    have hone : 1 ≤ allowance b := by cases b <;> simp [allowance]
    exact Nat.le_add_right_of_le hone
  | cons a earlier ih =>
    obtain ⟨hfollows, hchain⟩ := List.isChain_cons_cons.mp h
    have hle := ih hchain (List.not_mem_of_not_mem_cons given)
      (List.not_mem_of_not_mem_cons removed)
    rw [List.length_cons]
    -- The allowance grows along a row, but for a refusal of what was just given: there it
    -- falls by one while the row grows by one, which is the two of a regret.
    cases hfollows with
    | refused => simp only [regrets, allowance] at hle ⊢; omega
    | given => simp only [regrets, allowance] at hle ⊢; omega
    | renewed => simp only [regrets, allowance] at hle ⊢; omega
    | stuck => exact absurd List.mem_cons_self removed
    | vain _ _ => simp only [regrets, allowance] at hle ⊢; omega
    | empty => exact absurd List.mem_cons_self given

/-- A row is made of the three bootstraps.  Unless an empty signature is given in it, or one
is refused that cannot be removed, it comes to three connections and to two more for
each signature that is given in it and refused on the next connection. -/
theorem Course.row_length_le (h : Course past c)
    (given : .signatureStored [] ∉ bootstraps past)
    (removed : .signatureDropped false ∉ bootstraps past) :
    (bootstraps past).length = (row past).length ∧
      (row past).length ≤ 3 + 2 * regrets (bootstraps past) := by
  have hp := h.paced
  have htold : (bootstraps past).length = (row past).length := hp.told
  refine ⟨htold, ?_⟩
  rw [← htold]
  cases hbs : bootstraps past with
  | nil => exact Nat.zero_le _
  | cons b earlier =>
    rw [hbs] at given removed
    have hchain : (b :: earlier).IsChain Bootstrap.Follows := hbs ▸ hp.chained
    have hle := length_le_allowance hchain (List.not_mem_of_not_mem_cons given)
      (List.not_mem_of_not_mem_cons removed)
    have hthree : allowance b ≤ 3 := by cases b <;> simp [allowance]
    omega

/-- The certificate is fetched, an old signature is refused, and a new one is given. -/
def firstContact : List (Setting × Signal) :=
  [.connected, .connected, .answered ⟨1, .ok (.certificate
      "-----BEGIN CERTIFICATE-----\nAAECAwQFBgcICQ==\n-----END CERTIFICATE-----\n")⟩,
    .connected, .connected, .answered ⟨1, .error .notAllowed⟩,
    .connected, .connected, .answered ⟨1, .ok .ack⟩, .answered ⟨2, .ok (.signature [2])⟩].map
      (openSetting, ·)

theorem firstContact_row_length_le :
    bootstraps ((start "localhost" true none (some [1])).1.recorded [] firstContact) =
        [.signatureStored [2], .signatureDropped true, .certificateStored] ∧
      (row ((start "localhost" true none (some [1])).1.recorded [] firstContact)).length ≤ 3 := by
  have hbootstraps :
      bootstraps ((start "localhost" true none (some [1])).1.recorded [] firstContact) =
        [.signatureStored [2], .signatureDropped true, .certificateStored] := by
    decide +kernel
  have hcourse := (Course.start "localhost" true none (some [1])).run firstContact
  obtain ⟨_, hle⟩ :=
    hcourse.row_length_le (by rw [hbootstraps]; decide) (by rw [hbootstraps]; decide)
  rw [hbootstraps] at hle
  exact ⟨hbootstraps, hle⟩

/-! ## Rows without an end -/

/-- Signals that lead a client back to where it was, and on the way to other connections
without a rest. -/
structure Endless (c : Client) (inputs : List (Setting × Signal)) : Prop where
  returns : (c.run inputs).1 = c
  hurries : 0 < (row (c.recorded [] inputs)).length
  restless : ∀ o ∈ c.recorded [] inputs, o.after.phase ≠ .resting

theorem row_append {new : List Occasion} (h : ∀ o ∈ new, o.after.phase ≠ .resting) :
    row (new ++ past) = row new ++ row past := by
  induction new with
  | nil => rfl
  | cons o new ih =>
    have hrestless := h o List.mem_cons_self
    have htail := ih (fun o ho => h o (List.mem_cons_of_mem _ ho))
    rw [List.cons_append, row, row, if_neg hrestless, if_neg hrestless, htail]
    split
    · rfl
    · rfl

namespace Endless

variable {inputs : List (Setting × Signal)}

theorem length_add_le (h : Endless c inputs) (n : Nat) (past : List Occasion) :
    (row past).length + n ≤ (row (c.recorded past (List.replicate n inputs).flatten)).length := by
  induction n generalizing past with
  | zero => exact Nat.le_refl _
  | succ n ih =>
    have hle := ih (c.recorded past inputs)
    have hround : row (c.recorded past inputs) = row (c.recorded [] inputs) ++ row past := by
      rw [recorded_eq_append, row_append h.restless]
    have hpos := h.hurries
    rw [List.replicate_succ, List.flatten_cons, recorded_append, h.returns]
    rw [hround, List.length_append] at hle
    omega

/-- As many rounds make a row at least as long. -/
theorem le_row_length (h : Endless c inputs) (n : Nat) :
    n ≤ (row (c.recorded [] (List.replicate n inputs).flatten)).length :=
  (Nat.zero_add n).symm.trans_le (h.length_add_le n [])

end Endless

/-- A client that has a signature, and one with an empty file for it. -/
def signed : Client := (start "" false none (some [1])).1

def unsigned : Client := (start "" false none (some [])).1

/-- A signature is refused, and so is the one that is given for it. -/
def seesaw : List (Setting × Signal) :=
  [.connected, .answered ⟨1, .error .notAllowed⟩,
    .connected, .answered ⟨1, .ok .ack⟩, .answered ⟨2, .ok (.signature [1])⟩].map (openSetting, ·)

/-- A signature that cannot be removed is refused. -/
def stuck : List (Setting × Signal) :=
  [.connected, .answered ⟨1, .error .notAllowed⟩].map
    ({ openSetting with signatureFile := ⟨true, true, false⟩ }, ·)

/-- The signature that is given has nothing in it. -/
def hollow : List (Setting × Signal) :=
  [.connected, .answered ⟨1, .ok .ack⟩, .answered ⟨2, .ok (.signature [])⟩].map (openSetting, ·)

theorem seesaw_endless : Endless signed seesaw where
  returns := by decide +kernel
  hurries := by decide +kernel
  restless := by decide +kernel

theorem stuck_endless : Endless signed stuck where
  returns := by decide +kernel
  hurries := by decide +kernel
  restless := by decide +kernel

theorem hollow_endless : Endless unsigned hollow where
  returns := by decide +kernel
  hurries := by decide +kernel
  restless := by decide +kernel

/-- Four connections in a row without a wait, and three ways to as many as one likes. -/
theorem storms_endless :
    Course (signed.recorded [] (seesaw ++ seesaw)) (signed.run (seesaw ++ seesaw)).1 ∧
      (signed.run (seesaw ++ seesaw)).2.all (fun | .wait => false | _ => true) = true ∧
      (row (signed.recorded [] (seesaw ++ seesaw))).length = 4 ∧
      ∀ n, n ≤ (row (signed.recorded [] (List.replicate n seesaw).flatten)).length ∧
        n ≤ (row (signed.recorded [] (List.replicate n stuck).flatten)).length ∧
        n ≤ (row (unsigned.recorded [] (List.replicate n hollow).flatten)).length :=
  ⟨(Course.start "" false none (some [1])).run _, by decide +kernel, by decide +kernel,
    fun n => ⟨seesaw_endless.le_row_length n, stuck_endless.le_row_length n,
      hollow_endless.le_row_length n⟩⟩

end Client
end Push
end FleetMesh
