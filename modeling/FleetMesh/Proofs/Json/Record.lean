/-
What holds of everything that is read.

A table that is read is in key order, and its values are read by the reader of its
values (`ordered_of_table`, `forall_of_table`).

`Checks` has a property for each field of a record.  If all that can stand for a
field has the field's property, which is what `Layout.Meets` says, then the fields
of every row that is read have theirs (`Record.read_all`).  Of what is read for a
field may be supposed what holds of all parts of the record's text (`Doc.parts`).
-/
import FleetMesh.Json.Record
import FleetMesh.Proofs.Keyed

namespace FleetMesh
namespace Json

theorem bind_eq_ok {α β : Type} {x : Decoded α} {f : α → Decoded β} {b : β} :
    (x >>= f) = .ok b ↔ ∃ a, x = .ok a ∧ f a = .ok b := by
  cases x with
  | error e =>
    constructor
    · intro h
      cases h
    · rintro ⟨_, h, _⟩
      cases h
  | ok a =>
    constructor
    · exact fun h => ⟨a, rfl, h⟩
    · rintro ⟨a', ha, h⟩
      obtain rfl := Except.ok.inj ha
      exact h

theorem map_eq_ok {α β : Type} {x : Decoded α} {f : α → β} {b : β} :
    x.map f = .ok b ↔ ∃ a, x = .ok a ∧ f a = b := by
  cases x with
  | error e =>
    constructor
    · intro h
      cases h
    · rintro ⟨_, h, _⟩
      cases h
  | ok a =>
    constructor
    · exact fun h => ⟨a, rfl, Except.ok.inj h⟩
    · rintro ⟨a', ha, rfl⟩
      obtain rfl := Except.ok.inj ha
      rfl

theorem refuse_ne_ok {α : Type} (expected : String) (a : α) :
    ∀ d : Doc, d.refuse expected ≠ .ok a
  | .deep d => refuse_ne_ok expected a d
  | .absent | .astray | .garbled | .broken .. | .null | .bool _ | .number _ | .string _
  | .array .. | .object .. => fun h => (nomatch h)

/-- What is read from a text is read from the value the text holds. -/
theorem read_of_decodeGlyphs {α : Type} {read : Reader α} {glyphs : List Text.Glyph} {a : α}
    (h : decodeGlyphs read glyphs = .ok a) : read .text (Doc.ofGlyphs glyphs).1 = .ok a := by
  unfold decodeGlyphs at h
  generalize Doc.ofGlyphs glyphs = stated at h
  obtain ⟨d, more⟩ := stated
  obtain ⟨a', ha, hrest⟩ := bind_eq_ok.mp h
  cases more with
  | true => cases hrest
  | false => exact Except.ok.inj hrest ▸ ha

/-- The values that a container holds. -/
def Doc.parts : Doc → List Doc
  | .array items _ => items
  | .object fields _ => fields.map Prod.snd
  | _ => []

/-! ## Tables -/

theorem forall_of_entries {α : Type} {read : Reader α} {D : Doc → Prop} {P : α → Prop}
    {source : Source} (h : ∀ d a, D d → read source d = .ok a → P a) {fields : List (Doc × Doc)}
    (hfields : ∀ f ∈ fields, D f.2) {ending : Option Fault} {table result : List (String × α)}
    (ht : ∀ e ∈ table, P e.2)
    (hread : Read.entries read source fields ending table = .ok result) : ∀ e ∈ result, P e.2 := by
  induction fields generalizing table with
  | nil =>
    cases ending with
    | none => exact Except.ok.inj hread ▸ ht
    | some fault => cases hread
  | cons field fields ih =>
    obtain ⟨name, value⟩ := field
    obtain ⟨hvalue, hfields⟩ := List.forall_mem_cons.mp hfields
    rw [Read.entries] at hread
    obtain ⟨key, _, hread⟩ := bind_eq_ok.mp hread
    obtain ⟨a, ha, hread⟩ := bind_eq_ok.mp hread
    refine ih hfields (fun e he => ?_) hread
    rcases Keyed.mem_insert he with rfl | he
    · exact h value a hvalue ha
    · exact ht e he

theorem ordered_of_entries {α : Type} {read : Reader α} {source : Source}
    {fields : List (Doc × Doc)} {ending : Option Fault} {table result : List (String × α)}
    (ht : Keyed.Ordered table)
    (hread : Read.entries read source fields ending table = .ok result) :
    Keyed.Ordered result := by
  induction fields generalizing table with
  | nil =>
    cases ending with
    | none => exact Except.ok.inj hread ▸ ht
    | some fault => cases hread
  | cons field fields ih =>
    obtain ⟨name, value⟩ := field
    rw [Read.entries] at hread
    obtain ⟨key, _, hread⟩ := bind_eq_ok.mp hread
    obtain ⟨a, _, hread⟩ := bind_eq_ok.mp hread
    exact ih (Keyed.ordered_insert ht key a) hread

/-- Only an object is read as a table. -/
theorem entries_of_table {α : Type} {read : Reader α} {source : Source} {d : Doc}
    {table : List (String × α)} (h : Read.table read source d = .ok table) :
    ∃ fields ending, d = .object fields ending ∧
      Read.entries read source fields ending [] = .ok table := by
  cases d with
  | object fields ending => exact ⟨fields, ending, rfl, h⟩
  | deep d =>
    cases d with
    | object fields ending => cases h
    | _ => exact absurd h (refuse_ne_ok "a map" table _)
  | _ => cases h

theorem forall_of_table {α : Type} {read : Reader α} {D : Doc → Prop} {P : α → Prop}
    {source : Source} {d : Doc} (h : ∀ d a, D d → read source d = .ok a → P a)
    (hd : ∀ c ∈ d.parts, D c) {table : List (String × α)}
    (hread : Read.table read source d = .ok table) : ∀ e ∈ table, P e.2 := by
  obtain ⟨fields, ending, rfl, hentries⟩ := entries_of_table hread
  exact forall_of_entries h (fun f hf => hd f.2 (List.mem_map_of_mem hf))
    (fun _ he => absurd he List.not_mem_nil) hentries

theorem ordered_of_table {α : Type} {read : Reader α} {source : Source} {d : Doc}
    {table : List (String × α)} (hread : Read.table read source d = .ok table) :
    Keyed.Ordered table := by
  obtain ⟨_, _, -, hentries⟩ := entries_of_table hread
  exact ordered_of_entries List.Pairwise.nil hentries

/-! ## Records -/

/-- A property for each field. -/
def Checks : List Type → Type
  | [] => Unit
  | α :: ts => (α → Prop) × Checks ts

def Row.All : {ts : List Type} → Checks ts → Row ts → Prop
  | [], _, _ => True
  | _ :: _, (p, checks), (a, row) => p a ∧ Row.All checks row

def Draft.All : {ts : List Type} → Checks ts → Draft ts → Prop
  | [], _, _ => True
  | _ :: _, (p, checks), (slot, draft) => (∀ a, slot = some a → p a) ∧ Draft.All checks draft

/-- Whatever is read for a field from a part with property `D`, or stands for it when it is
not there, has the property `p`. -/
structure Field.Meets {α : Type} (f : Field α) (D : Doc → Prop) (p : α → Prop) : Prop where
  read : ∀ source d a, D d → f.read source d = .ok a → p a
  missing : ∀ a, f.missing = some a → p a
  cut : ∀ a, f.cut = some a → p a

namespace Field.Meets

variable {α : Type} {name : String} {c : Codec α} {D : Doc → Prop} {p : α → Prop}

theorem any {f : Field α} : f.Meets D (fun _ => True) :=
  ⟨fun _ _ _ _ _ => trivial, fun _ _ => trivial, fun _ _ => trivial⟩

theorem required (h : ∀ source d a, D d → c.read source d = .ok a → p a) :
    (Field.required name c).Meets D p :=
  ⟨h, fun a ha => absurd ha.symm (Option.some_ne_none a),
    fun a ha => absurd ha.symm (Option.some_ne_none a)⟩

theorem optional {default : α} (h : ∀ source d a, D d → c.read source d = .ok a → p a)
    (hdefault : p default) : (Field.optional name c default).Meets D p :=
  ⟨h, fun _ ha => Option.some.inj ha ▸ hdefault, fun _ ha => Option.some.inj ha ▸ hdefault⟩

/-- What is there is not `null`. -/
theorem sparse {p : Option α → Prop} (hnone : p none)
    (h : ∀ source d a, D d → d ≠ .null → c.read source d = .ok a → p (some a)) :
    (Field.sparse name c).Meets D p := by
  refine ⟨fun source d a hd ha => ?_, fun _ ha => Option.some.inj ha ▸ hnone,
    fun _ ha => Option.some.inj ha ▸ hnone⟩
  change Read.option c.read source d = .ok a at ha
  by_cases hnull : d = .null
  · subst hnull
    obtain rfl := Except.ok.inj ha
    exact hnone
  · have hoption : Read.option c.read source d = (c.read source d).map some := by
      cases d <;> first | rfl | exact absurd rfl hnull
    rw [hoption] at ha
    obtain ⟨b, hb, rfl⟩ := map_eq_ok.mp ha
    exact h source d b hd hnull hb

end Field.Meets

namespace Layout

def Meets (D : Doc → Prop) : {ts : List Type} → Layout ts → Checks ts → Prop
  | [], _, _ => True
  | _ :: _, (f, rest), (p, checks) => f.Meets D p ∧ Meets D rest checks

variable {ts : List Type} {layout : Layout ts} {D : Doc → Prop} {checks : Checks ts}

theorem all_blank : ∀ {ts : List Type} (checks : Checks ts), Draft.All checks blank
  | [], _ => trivial
  | _ :: _, (_, checks) => ⟨fun a h => absurd h.symm (Option.some_ne_none a), all_blank checks⟩

theorem all_accept (h : layout.Meets D checks) {draft draft' : Draft ts} {source : Source}
    {name : String} {d : Doc} (hd : D d) (hdraft : Draft.All checks draft)
    (haccept : layout.accept source name d draft = some (.ok draft')) :
    Draft.All checks draft' := by
  induction ts with
  | nil => trivial
  | cons α ts ih =>
    obtain ⟨f, rest⟩ := layout
    obtain ⟨p, checks⟩ := checks
    obtain ⟨slot, draft⟩ := draft
    obtain ⟨hf, hrest⟩ := h
    obtain ⟨hslot, hdraft⟩ := hdraft
    change (if f.name = name then _ else _) = _ at haccept
    split at haccept
    · cases slot with
      | some a => cases haccept
      | none =>
        obtain ⟨a, ha, rfl⟩ := map_eq_ok.mp (Option.some.inj haccept)
        refine ⟨fun b hb => ?_, hdraft⟩
        obtain rfl := Option.some.inj hb
        exact hf.read source d a hd ha
    · obtain ⟨result, hresult, hmap⟩ := Option.map_eq_some_iff.mp haccept
      obtain ⟨done, rfl, rfl⟩ := map_eq_ok.mp hmap
      exact ⟨hslot, ih hrest hdraft hresult⟩

theorem all_readFields (h : layout.Meets D checks) {source : Source} {fields : List (Doc × Doc)}
    (hfields : ∀ f ∈ fields, D f.2) {ending : Option Fault} {draft draft' : Draft ts}
    (hdraft : Draft.All checks draft)
    (hread : layout.readFields source fields ending draft = .ok draft') :
    Draft.All checks draft' := by
  induction fields generalizing draft with
  | nil =>
    cases ending with
    | none =>
      obtain rfl := Except.ok.inj hread
      exact hdraft
    | some fault => cases hread
  | cons field fields ih =>
    obtain ⟨name, value⟩ := field
    obtain ⟨hvalue, hfields⟩ := List.forall_mem_cons.mp hfields
    rw [readFields] at hread
    obtain ⟨key, _, hread⟩ := bind_eq_ok.mp hread
    cases haccept : layout.accept source key value draft with
    | some result =>
      rw [haccept] at hread
      obtain ⟨next, rfl, hread⟩ := bind_eq_ok.mp hread
      exact ih hfields (all_accept h hvalue hdraft haccept) hread
    | none =>
      rw [haccept] at hread
      obtain ⟨_, _, hread⟩ := bind_eq_ok.mp hread
      exact ih hfields hdraft hread

theorem all_complete (h : layout.Meets D checks) {draft : Draft ts} {row : Row ts}
    (hdraft : Draft.All checks draft) (hrow : layout.complete draft = .ok row) :
    Row.All checks row := by
  induction ts with
  | nil => trivial
  | cons α ts ih =>
    obtain ⟨⟨name, write, read, missing, cut⟩, rest⟩ := layout
    obtain ⟨p, checks⟩ := checks
    obtain ⟨slot, draft⟩ := draft
    obtain ⟨hf, hrest⟩ := h
    obtain ⟨hslot, hdraft⟩ := hdraft
    cases slot with
    | some a =>
      change (rest.complete draft).map _ = _ at hrow
      obtain ⟨others, hothers, rfl⟩ := map_eq_ok.mp hrow
      exact ⟨hslot a rfl, ih hrest hdraft hothers⟩
    | none =>
      cases missing with
      | none => cases hrow
      | some a =>
        change (rest.complete draft).map _ = _ at hrow
        obtain ⟨others, hothers, rfl⟩ := map_eq_ok.mp hrow
        exact ⟨hf.missing a rfl, ih hrest hdraft hothers⟩

theorem all_readItems (h : layout.Meets D checks) {source : Source} {whole : String} {index : Nat}
    {docs : List Doc} (hdocs : ∀ d ∈ docs, D d) {ending : Option Fault} {row : Row ts}
    (hread : layout.readItems source whole index docs ending = .ok row) :
    Row.All checks row := by
  induction ts generalizing index docs with
  | nil => trivial
  | cons α ts ih =>
    obtain ⟨f, rest⟩ := layout
    obtain ⟨p, checks⟩ := checks
    obtain ⟨hf, hrest⟩ := h
    cases docs with
    | nil =>
      cases ending with
      | some fault => cases hread
      | none =>
        rw [readItems] at hread
        cases hcut : f.cut with
        | none =>
          rw [hcut] at hread
          cases hread
        | some a =>
          rw [hcut] at hread
          obtain ⟨others, hothers, rfl⟩ := map_eq_ok.mp hread
          exact ⟨hf.cut a hcut, ih hrest hdocs hothers⟩
    | cons d more =>
      obtain ⟨hd, hmore⟩ := List.forall_mem_cons.mp hdocs
      rw [readItems] at hread
      obtain ⟨a, ha, hread⟩ := bind_eq_ok.mp hread
      obtain ⟨others, hothers, hpure⟩ := bind_eq_ok.mp hread
      obtain rfl := Except.ok.inj hpure
      exact ⟨hf.read source d a hd ha, ih hrest hmore hothers⟩

end Layout

theorem Record.read_all {ts : List Type} {r : Record ts} {D : Doc → Prop} {checks : Checks ts}
    (h : r.layout.Meets D checks) {source : Source} {d : Doc} (hd : ∀ c ∈ d.parts, D c)
    {row : Row ts} (hread : r.read source d = .ok row) : Row.All checks row := by
  cases d with
  | object fields ending =>
    obtain ⟨draft, hdraft, hrow⟩ := bind_eq_ok.mp hread
    have hfields : ∀ f ∈ fields, D f.2 := fun f hf => hd f.2 (List.mem_map_of_mem hf)
    exact Layout.all_complete h (Layout.all_readFields h hfields (Layout.all_blank checks) hdraft)
      hrow
  | array docs ending => exact Layout.all_readItems h hd hread
  | _ => cases hread

end Json
end FleetMesh
