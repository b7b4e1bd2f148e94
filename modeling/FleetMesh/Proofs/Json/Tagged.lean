/-
Alternatives that are read back.

An alternative is written as its name, as an object with its name and its content, or
in one of the two forms with a tag.  Each form has the equation of its reader on what
is written.  In the inner form everything is held before the tag is known, and what was
written can always be held (`Doc.hold_ofValue`).
-/
import FleetMesh.Json.Tagged
import FleetMesh.Proofs.Json.Codec

namespace FleetMesh
namespace Json

variable {α : Type} {known : List String} {expected name : String} {source : Source}

namespace Read

theorem identifier_string (h : name ∈ known) :
    identifier known expected (.string name) = .ok name :=
  if_pos h

/-! ## By name -/

theorem variant_alone {content : String → Option Doc → Decoded α} (h : name ∈ known) :
    variant known expected content (Doc.ofValue (.string name)) = content name none := by
  show (identifier known expected (.string name) >>= fun name => content name none) = _
  rw [identifier_string h, ok_bind]

theorem variant_content {content : String → Option Doc → Decoded α} (h : name ∈ known)
    (v : Value) : variant known expected content (Doc.ofValue (.object [(name, v)]))
      = content name (some (Doc.ofValue v)) := by
  show (identifier known expected (.string name) >>= fun name =>
    content name (some (Doc.ofValue v)) >>= fun a => .ok a) = _
  rw [identifier_string h, ok_bind]
  cases content name (some (Doc.ofValue v)) <;> rfl

/-! ## The outer form -/

theorem tagName_string (h : name ∈ known) :
    tagName known source (.string name) = .ok name :=
  variant_alone h

theorem Outer.reader_alone {o : Outer α} {a : α} (h : name ∈ o.known) (ha : o.alone name = some a) :
    o.reader source (Doc.ofValue (.object [(o.tag, .string name)])) = .ok a := by
  have hseek : seek o.tag o.content (Doc.ofMembers [(o.tag, .string name)]) none
      = .ok (some (.tag, .string name, [])) := if_pos rfl
  show (seek o.tag o.content (Doc.ofMembers [(o.tag, .string name)]) none >>= _) = _
  rw [hseek, ok_bind]
  show (tagName o.known source (.string name) >>= _) = _
  rw [tagName_string h, ok_bind]
  dsimp only [seek, Bind.bind, Except.bind]
  rw [ha]

theorem Outer.reader_content {o : Outer α} (h : name ∈ o.known) (htag : o.content ≠ o.tag)
    (v : Value) :
    o.reader source (Doc.ofValue (.object [(o.tag, .string name), (o.content, v)]))
      = o.read name source (Doc.ofValue v) := by
  have hseek : seek o.tag o.content
        (Doc.ofMembers [(o.tag, .string name), (o.content, v)]) none
      = .ok (some (.tag, .string name, Doc.ofMembers [(o.content, v)])) := if_pos rfl
  have hrest : seek o.tag o.content (Doc.ofMembers [(o.content, v)]) none
      = .ok (some (.content, Doc.ofValue v, [])) :=
    (if_neg htag).trans (if_pos rfl)
  show (seek o.tag o.content (Doc.ofMembers [(o.tag, .string name), (o.content, v)]) none >>= _) = _
  rw [hseek, ok_bind]
  show (tagName o.known source (.string name) >>= _) = _
  rw [tagName_string h, ok_bind]
  show (seek o.tag o.content (Doc.ofMembers [(o.content, v)]) none >>= _) = _
  rw [hrest, ok_bind]
  show (o.read name source (Doc.ofValue v) >>= fun a => .ok a) = _
  cases o.read name source (Doc.ofValue v) <;> rfl

end Read

/-! ## The inner form -/

/-- What was written can be held. -/
theorem Doc.hold_ofValue (v : Value) : (Doc.ofValue v).hold = .ok () := by
  induction v using Value.induct with
  | null | bool b | number n | string s => rfl
  | array items ih =>
    rw [Doc.ofValue, Doc.hold]
    induction items with
    | nil => rfl
    | cons v rest ihrest =>
      obtain ⟨hv, hrest⟩ := List.forall_mem_cons.mp ih
      rw [Doc.ofItems, Doc.holdItems, hv]
      exact ihrest hrest
  | object members ih =>
    rw [Doc.ofValue, Doc.hold]
    induction members with
    | nil => rfl
    | cons m rest ihrest =>
      obtain ⟨k, v⟩ := m
      obtain ⟨hv, hrest⟩ := List.forall_mem_cons.mp ih
      rw [Doc.ofMembers, Doc.holdFields, hv]
      exact ihrest hrest

namespace Read

variable {tag title : String}

theorem separate_members {members : List (String × Value)} (h : ∀ m ∈ members, m.1 ≠ tag) :
    separate tag known (Doc.ofMembers members) none (some name)
      = .ok (name, Doc.ofMembers members) := by
  induction members with
  | nil => rfl
  | cons m rest ih =>
    obtain ⟨k, v⟩ := m
    obtain ⟨hk, hrest⟩ := List.forall_mem_cons.mp h
    rw [Doc.ofMembers, separate]
    show (if k = tag then _ else _) = _
    rw [if_neg hk, Doc.hold_ofValue, ih hrest]
    rfl

/-- A tag that was written first leaves the other members to be read. -/
theorem tagged_members {content : String → Reader α} (h : name ∈ known)
    {members : List (String × Value)} (htag : ∀ m ∈ members, m.1 ≠ tag) :
    tagged title tag known content source
        (Doc.ofValue (.object ((tag, .string name) :: members)))
      = content name .held (Doc.ofValue (.object members)) := by
  have hseparate : separate tag known (Doc.ofMembers ((tag, .string name) :: members)) none none
      = .ok (name, Doc.ofMembers members) := by
    rw [Doc.ofMembers, separate]
    show (if tag = tag then _ else _) = _
    rw [if_pos rfl]
    show (identifier known "variant identifier" (.string name) >>= _) = _
    rw [identifier_string h, ok_bind]
    exact separate_members htag
  show (separate tag known (Doc.ofMembers ((tag, .string name) :: members)) none none >>= _) = _
  rw [hseparate, ok_bind]
  rfl

end Read
end Json
end FleetMesh
