/-
Reading what was written.

To decode a text that was printed is to read the value that was printed
(`decode_render`).  A codec returns one value for another if that is what it reads
where it wrote the other, and it keeps a value that it returns for itself.  Strings and
flags are always kept, integers within their bounds, free-form content if its objects
are in key order, tables in key order whose values are kept.  A `null` is returned as
nothing.  A record is returned field by field, if its fields have names of their own
(`Record.read_members`).
-/
import FleetMesh.Proofs.Json.Printed
import FleetMesh.Proofs.Json.Record

namespace FleetMesh
namespace Json

/-- Reading what is written for `a` gives `b`. -/
def Codec.Returns {α : Type} (c : Codec α) (a b : α) : Prop :=
  ∀ source, c.read source (Doc.ofValue (c.write a)) = .ok b

/-- Reading what is written for `a` gives `a` back. -/
def Codec.Keeps {α : Type} (c : Codec α) (a : α) : Prop := c.Returns a a

/-- The same for a field; one that is left out stands for `b`. -/
def Field.Returns {α : Type} (f : Field α) (a b : α) : Prop :=
  match f.write a with
  | some v => ∀ source, f.read source (Doc.ofValue v) = .ok b
  | none => f.missing = some b

def Field.Keeps {α : Type} (f : Field α) (a : α) : Prop := f.Returns a a

theorem ok_bind {α β : Type} (a : α) (f : α → Decoded β) : (Except.ok a >>= f) = f a := rfl

theorem ok_map {α β : Type} (a : α) (f : α → β) : (Except.ok a : Decoded α).map f = .ok (f a) := rfl

/-- Decoding what was printed is reading the value, its numbers reread and cut off where it is
nested past the limit. -/
theorem decode_render {α : Type} {read : Reader α} {v : Value} (h : v.Legible) :
    decode read v.render = read .text (Doc.nested 0 v.reread) := by
  have hglyphs : Text.Glyph.ofString v.render = glyphs v.chars := by
    rw [Text.Glyph.ofString, Value.render, String.toList_ofList]
    rfl
  rw [decode, decodeGlyphs, hglyphs, Doc.ofGlyphs_chars h]
  show (read .text (Doc.nested 0 v.reread) >>= fun a => .ok a) = _
  cases read .text (Doc.nested 0 v.reread) <;> rfl

theorem decode_render_of_nesting {α : Type} {read : Reader α} {v : Value} (h : v.Legible)
    (hnesting : v.nesting ≤ Doc.nestingLimit) :
    decode read v.render = read .text (Doc.ofValue v.reread) := by
  have hnested : Doc.nested 0 v.reread = Doc.ofValue v.reread :=
    Doc.nested_eq (by rw [Doc.nesting_reread, Nat.zero_add]; exact hnesting)
  rw [decode_render h, hnested]

namespace Codec

theorem keeps_string (s : String) : string.Keeps s := fun _ => rfl

theorem keeps_bool (b : Bool) : bool.Keeps b := fun _ => rfl

theorem read_integer {low high n : Int} (h : low ≤ n ∧ n ≤ high) (name : String) (source : Source) :
    Read.integer low high name source (Doc.ofValue (.int n)) = .ok n :=
  if_pos h

theorem keeps_int32 {n : Int} (h : -0x80000000 ≤ n ∧ n ≤ 0x7fffffff) : int32.Keeps n :=
  read_integer h "i32"

theorem keeps_int64 {n : Int} (h : -0x8000000000000000 ≤ n ∧ n ≤ 0x7fffffffffffffff) :
    int64.Keeps n :=
  read_integer h "i64"

theorem read_natural {high n : Nat} (h : n ≤ high) (name : String) (source : Source) :
    Read.natural high name source (Doc.ofValue (.int n)) = .ok n := by
  rw [Read.natural, read_integer ⟨Int.natCast_nonneg n, Int.ofNat_le.mpr h⟩]
  rfl

theorem keeps_word8 {n : Nat} (h : n ≤ 0xff) : word8.Keeps n := read_natural h "u8"

theorem keeps_word64 {n : Nat} (h : n ≤ 0xffffffffffffffff) : word64.Keeps n :=
  read_natural h "u64"

theorem keeps_imap {α β : Type} {c : Codec α} {f : α → β} {g : β → α} {b : β} (h : c.Keeps (g b))
    (hback : f (g b) = b) : (c.imap f g).Keeps b := by
  intro source
  show (c.read source (Doc.ofValue (c.write (g b)))).map f = _
  rw [h source, ok_map, hback]

theorem read_items {α : Type} {c : Codec α} {as : List α} (h : ∀ a ∈ as, c.Keeps a)
    (source : Source) : Read.items c.read source (Doc.ofItems (as.map c.write)) none = .ok as := by
  induction as with
  | nil => rfl
  | cons a rest ih =>
    obtain ⟨ha, hrest⟩ := List.forall_mem_cons.mp h
    rw [List.map_cons, Doc.ofItems, Read.items, ha source, ok_bind, ih hrest, ok_bind]
    rfl

theorem keeps_list {α : Type} {c : Codec α} {as : List α} (h : ∀ a ∈ as, c.Keeps a) :
    (list c).Keeps as :=
  read_items h

theorem read_entries {α : Type} {c : Codec α} {f : α → α} {table : List (String × α)}
    (h : ∀ e ∈ table, c.Returns e.2 (f e.2)) (source : Source) (done : List (String × α)) :
    Read.entries c.read source (Doc.ofMembers (Keyed.mapValues c.write table)) none done
      = .ok ((Keyed.mapValues f table).foldl (fun table e => Keyed.insert e.1 e.2 table) done) := by
  induction table generalizing done with
  | nil => rfl
  | cons e rest ih =>
    obtain ⟨k, a⟩ := e
    obtain ⟨ha, hrest⟩ := List.forall_mem_cons.mp h
    show (Doc.key (.string k) >>= fun key => c.read source (Doc.ofValue (c.write a)) >>= fun b =>
      Read.entries c.read source (Doc.ofMembers (Keyed.mapValues c.write rest)) none
        (Keyed.insert key b done)) = _
    rw [show Doc.key (.string k) = .ok k from rfl, ok_bind, ha source, ok_bind]
    exact ih hrest (Keyed.insert k (f a) done)

/-- A table in key order is read back in the same order. -/
theorem returns_table {α : Type} {c : Codec α} {f : α → α} {entries : List (String × α)}
    (hordered : Keyed.Ordered entries) (h : ∀ e ∈ entries, c.Returns e.2 (f e.2)) :
    (table c).Returns entries (Keyed.mapValues f entries) := by
  intro source
  have hread := read_entries h source []
  have hmapped : Keyed.Ordered (Keyed.mapValues f entries) :=
    Keyed.ordered_mapValues.mpr hordered
  rw [show (Keyed.mapValues f entries).foldl (fun table e => Keyed.insert e.1 e.2 table) []
    = Keyed.ofList (Keyed.mapValues f entries) from rfl, Keyed.ofList_of_ordered hmapped] at hread
  exact hread

end Codec

/-! ## Free-form content -/

namespace Value

theorem sortedItems_eq (items : List Value) : sortedItems items = items.map sorted := by
  induction items with
  | nil => rfl
  | cons v rest ih => rw [sortedItems, ih]; rfl

theorem sortedMembers_eq (members : List (String × Value)) :
    sortedMembers members = Keyed.mapValues sorted members := by
  induction members with
  | nil => rfl
  | cons m rest ih =>
    obtain ⟨k, v⟩ := m
    rw [sortedMembers, ih]
    rfl

end Value

/-- Free-form content comes back with the members of its objects in order. -/
theorem freeForm_ofValue (v : Value) : Read.freeForm (Doc.ofValue v) = .ok v.sorted := by
  induction v using Value.induct with
  | null | bool b | number n | string s => rfl
  | array items ih =>
    have hitems : Read.freeFormItems (Doc.ofItems items) none = .ok (items.map Value.sorted) := by
      induction items with
      | nil => rfl
      | cons v rest ihrest =>
        obtain ⟨hv, hrest⟩ := List.forall_mem_cons.mp ih
        rw [Doc.ofItems, Read.freeFormItems, hv, ok_bind, ihrest hrest, ok_bind]
        rfl
    rw [Doc.ofValue, Read.freeForm, hitems, ok_bind, Value.sorted, Value.sortedItems_eq]
    rfl
  | object members ih =>
    have hmembers : Read.freeFormMembers (Doc.ofMembers members) none
        = .ok (Keyed.mapValues Value.sorted members) := by
      induction members with
      | nil => rfl
      | cons m rest ihrest =>
        obtain ⟨k, v⟩ := m
        obtain ⟨hv, hrest⟩ := List.forall_mem_cons.mp ih
        rw [Doc.ofMembers, Read.freeFormMembers, show Doc.key (.string k) = .ok k from rfl, ok_bind,
          hv, ok_bind, ihrest hrest, ok_bind]
        rfl
    rw [Doc.ofValue, Read.freeForm, hmembers, ok_bind, Value.sorted, Value.sortedMembers_eq]
    rfl

namespace Field

variable {α : Type} {name : String} {c : Codec α} {a : α}

theorem keeps_required (h : c.Keeps a) : (required name c).Keeps a := h

theorem keeps_optional {default : α} (h : c.Keeps a) : (optional name c default).Keeps a := h

theorem read_option {b : α} (h : c.Returns a b) (hnull : c.write a ≠ .null) (source : Source) :
    Read.option c.read source (Doc.ofValue (c.write a)) = .ok (some b) := by
  have hoption : Read.option c.read source (Doc.ofValue (c.write a))
      = (c.read source (Doc.ofValue (c.write a))).map some := by
    cases hw : c.write a with
    | null => exact absurd hw hnull
    | _ => rfl
  rw [hoption, h source, ok_map]

/-- `null` stands for nothing, so what is written as `null` is not returned. -/
theorem returns_sparse_null (h : c.write a = .null) : (sparse name c).Returns (some a) none := by
  rw [Returns, show (sparse name c).write (some a) = some (c.write a) from rfl, h]
  exact fun _ => rfl

theorem returns_sparse {b : α} (h : c.Returns a b) (hnull : c.write a ≠ .null) :
    (sparse name c).Returns (some a) (some b) :=
  read_option h hnull

theorem keeps_sparse_none : (sparse name c).Keeps none := rfl

theorem keeps_nullable {slot : Option α}
    (h : ∀ a, slot = some a → c.Keeps a ∧ c.write a ≠ .null) : (nullable name c).Keeps slot := by
  cases slot with
  | none => exact fun _ => rfl
  | some a => exact read_option (h a rfl).1 (h a rfl).2

end Field

/-! ## Records -/

namespace Layout

def names : {ts : List Type} → Layout ts → List String
  | [], _ => []
  | _ :: _, (f, rest) => f.name :: names rest

/-- Each field returns the one row's value for the other's. -/
def Returns : {ts : List Type} → Layout ts → Row ts → Row ts → Prop
  | [], _, _, _ => True
  | _ :: _, (f, rest), (a, row), (b, back) => f.Returns a b ∧ Returns rest row back

def Keeps {ts : List Type} (layout : Layout ts) (row : Row ts) : Prop := layout.Returns row row

/-- The values that come back of the fields that are written. -/
def written : {ts : List Type} → Layout ts → Row ts → Row ts → Draft ts
  | [], _, _, _ => ()
  | _ :: _, (f, rest), (a, row), (b, back) => ((f.write a).map (fun _ => b), written rest row back)

variable {ts : List Type}

theorem mem_names_of_members {layout : Layout ts} {row : Row ts} {m : String × Value}
    (h : m ∈ layout.members row) : m.1 ∈ layout.names := by
  induction ts with
  | nil => exact absurd h List.not_mem_nil
  | cons α ts ih =>
    obtain ⟨f, rest⟩ := layout
    obtain ⟨a, row⟩ := row
    change m ∈ (match f.write a with
      | some v => (f.name, v) :: rest.members row
      | none => rest.members row) at h
    rw [names]
    split at h
    · rcases List.mem_cons.mp h with rfl | h
      · exact List.mem_cons_self
      · exact List.mem_cons_of_mem _ (ih h)
    · exact List.mem_cons_of_mem _ (ih h)

theorem readFields_cons (layout : Layout ts) (source : Source) (k : String) (v : Value)
    (members : List (String × Value)) (draft : Draft ts) :
    layout.readFields source (Doc.ofMembers ((k, v) :: members)) none draft =
      match layout.accept source k (Doc.ofValue v) draft with
      | some result => result >>= layout.readFields source (Doc.ofMembers members) none
      | none => raising (Doc.ofValue v).skip >>= fun _ =>
        layout.readFields source (Doc.ofMembers members) none draft := by
  rw [Doc.ofMembers, readFields]
  rfl

/-- Members of other names leave the first field alone. -/
theorem readFields_of_ne {α : Type} {f : Field α} {rest : Layout ts}
    {members : List (String × Value)} (h : ∀ m ∈ members, f.name ≠ m.1) (source : Source)
    (slot : Option α) (draft : Draft ts) :
    @readFields (α :: ts) (f, rest) source (Doc.ofMembers members) none (slot, draft)
      = (rest.readFields source (Doc.ofMembers members) none draft).map
          (fun draft => (slot, draft)) := by
  induction members generalizing draft with
  | nil => rfl
  | cons m members ih =>
    obtain ⟨k, v⟩ := m
    obtain ⟨hk, hmembers⟩ := List.forall_mem_cons.mp h
    have haccept : @accept source k (Doc.ofValue v) (α :: ts) (f, rest) (slot, draft)
        = (rest.accept source k (Doc.ofValue v) draft).map
            (fun result => result.map (fun draft => (slot, draft))) := if_neg hk
    refine (readFields_cons _ source k v members _).trans ?_
    rw [readFields_cons, haccept]
    cases rest.accept source k (Doc.ofValue v) draft with
    | none =>
      show (raising (Doc.ofValue v).skip >>= fun _ => _) = Except.map _ (_ >>= fun _ => _)
      cases raising (Doc.ofValue v).skip with
      | error e => rfl
      | ok u => exact ih hmembers draft
    | some result =>
      cases result with
      | error e => rfl
      | ok draft => exact ih hmembers draft

theorem readFields_members {layout : Layout ts} (hnames : layout.names.Nodup) {row back : Row ts}
    (h : layout.Returns row back) (source : Source) :
    layout.readFields source (Doc.ofMembers (layout.members row)) none blank
      = .ok (layout.written row back) := by
  induction ts with
  | nil => rfl
  | cons α ts ih =>
    obtain ⟨f, rest⟩ := layout
    obtain ⟨a, row⟩ := row
    obtain ⟨b, back⟩ := back
    obtain ⟨hf, hrest⟩ := h
    obtain ⟨hfresh, hnames⟩ := List.nodup_cons.mp hnames
    have hne : ∀ m ∈ rest.members row, f.name ≠ m.1 := fun m hm e =>
      hfresh (e ▸ mem_names_of_members hm)
    rw [members, written, blank]
    rw [Field.Returns] at hf
    cases hw : f.write a with
    | none =>
      rw [readFields_of_ne hne, ih hnames hrest]
      rfl
    | some v =>
      rw [hw] at hf
      have haccept : @accept source f.name (Doc.ofValue v) (α :: ts) (f, rest) (none, blank)
          = some (.ok (some b, blank)) := by
        rw [accept, if_pos rfl, hf source]
        rfl
      refine (readFields_cons _ source f.name v (rest.members row) _).trans ?_
      rw [haccept]
      show @readFields (α :: ts) (f, rest) source _ none (some b, blank) = _
      rw [readFields_of_ne hne, ih hnames hrest]
      rfl

theorem complete_written {layout : Layout ts} {row back : Row ts} (h : layout.Returns row back) :
    layout.complete (layout.written row back) = .ok back := by
  induction ts with
  | nil => rfl
  | cons α ts ih =>
    obtain ⟨f, rest⟩ := layout
    obtain ⟨a, row⟩ := row
    obtain ⟨b, back⟩ := back
    obtain ⟨hf, hrest⟩ := h
    rw [Field.Returns] at hf
    rw [written]
    cases hw : f.write a with
    | some v =>
      show (rest.complete (rest.written row back)).map _ = _
      rw [ih hrest]
      rfl
    | none =>
      rw [hw] at hf
      simp only [Option.map_none, complete, hf, ih hrest]
      rfl

end Layout

theorem Record.read_members {ts : List Type} {r : Record ts} (hnames : r.layout.names.Nodup)
    {row back : Row ts} (h : r.layout.Returns row back) (source : Source) :
    r.read source (Doc.ofValue (.object (r.layout.members row))) = .ok back := by
  show (r.layout.readFields source (Doc.ofMembers (r.layout.members row)) none Layout.blank >>=
    fun draft => r.layout.complete draft) = _
  rw [Layout.readFields_members hnames h, ok_bind, Layout.complete_written h]

theorem Record.returns {α : Type} {ts : List Type} {r : Record ts} (hnames : r.layout.names.Nodup)
    {ofRow : Row ts → α} {toRow : α → Row ts} {a b : α} (hback : ofRow (toRow b) = b)
    (h : r.layout.Returns (toRow a) (toRow b)) : (r.codec ofRow toRow).Returns a b := by
  intro source
  show (r.read source (Doc.ofValue (.object (r.layout.members (toRow a))))).map ofRow = _
  rw [read_members hnames h, ok_map, hback]

theorem Record.keeps {α : Type} {ts : List Type} {r : Record ts} (hnames : r.layout.names.Nodup)
    {ofRow : Row ts → α} {toRow : α → Row ts} {a : α} (hback : ofRow (toRow a) = a)
    (h : r.layout.Keeps (toRow a)) : (r.codec ofRow toRow).Keeps a :=
  returns hnames hback h

end Json
end FleetMesh
