/-
Values whose text says all of them.

A value is retold if every number in it is read back as it was, and exact if moreover
no more than so many containers are open in it at once.  What was written exactly, by a
codec that keeps it, comes back from the text and from the text's bytes
(`Codec.Keeps.decode_written`).
-/
import FleetMesh.Proofs.Json.Bounded
import FleetMesh.Proofs.Json.Codec
import FleetMesh.Proofs.Text.Glyph

namespace FleetMesh
namespace Json
namespace Value

def Retold (v : Value) : Prop := ∀ n ∈ v.numbers, n.Legible ∧ n.reread = n

theorem Retold.legible {v : Value} (h : v.Retold) : v.Legible := fun n hn => (h n hn).1

theorem Retold.reread {v : Value} (h : v.Retold) : v.reread = v :=
  reread_of_numbers fun n hn => (h n hn).2

theorem retold_leaf {v : Value} (h : v.numbers = []) : v.Retold :=
  fun _ hn => absurd (h ▸ hn) List.not_mem_nil

theorem retold_int {n : Int} (h : -0x8000000000000000 ≤ n ∧ n ≤ 0xffffffffffffffff) :
    (int n).Retold := by
  intro m hm
  obtain rfl := List.mem_singleton.mp hm
  exact Number.legible_int h

theorem retold_array {items : List Value} (h : ∀ v ∈ items, v.Retold) : (array items).Retold := by
  intro n hn
  obtain ⟨v, hv, hn⟩ := mem_itemNumbers.mp hn
  exact h v hv n hn

theorem retold_object {members : List (String × Value)} (h : ∀ m ∈ members, m.2.Retold) :
    (object members).Retold := by
  intro n hn
  obtain ⟨m, hm, hn⟩ := mem_memberNumbers.mp hn
  exact h m hm n hn

/-- Of free-form content only floats may be read back as other numbers. -/
theorem FloatFree.retold {v : Value} (h : v.FloatFree) (hportable : v.Portable) : v.Retold := by
  intro n hn
  have hrange := hportable.numbers n hn
  obtain ⟨i, rfl⟩ := h n hn
  exact Number.legible_int hrange

/-! ## Depth -/

structure Exact (depth : Nat) (v : Value) : Prop where
  retold : v.Retold
  nesting : v.nesting ≤ depth

variable {depth : Nat}

theorem exact_string (s : String) : (string s).Exact depth :=
  ⟨retold_leaf rfl, Nat.zero_le depth⟩

theorem exact_natural {n : Nat} (h : n ≤ 0xffffffffffffffff) : (int n).Exact depth :=
  ⟨retold_int (by omega), Nat.zero_le depth⟩

theorem exact_array {items : List Value} (h : ∀ v ∈ items, v.Exact depth) :
    (array items).Exact (depth + 1) where
  retold := retold_array fun v hv => (h v hv).retold
  nesting := Nat.succ_le_succ (itemNesting_le fun v hv => (h v hv).nesting)

theorem exact_object {members : List (String × Value)} (h : ∀ m ∈ members, m.2.Exact depth) :
    (object members).Exact (depth + 1) where
  retold := retold_object fun m hm => (h m hm).retold
  nesting := Nat.succ_le_succ (memberNesting_le fun m hm => (h m hm).nesting)

end Value

/-- The bytes of a text are decoded like the text. -/
theorem decodeBytes_bytesOf {α : Type} (read : Reader α) (text : String) :
    decodeBytes read (Text.bytesOf text) = decode read text := by
  rw [decodeBytes, Text.Glyph.ofBytes_bytesOf, decode]

theorem Codec.Keeps.decode_written {α : Type} {c : Codec α} {a : α} (h : c.Keeps a)
    (hexact : (c.write a).Exact Doc.nestingLimit) :
    decode c.read (c.write a).render = .ok a ∧
      decodeBytes c.read (Text.bytesOf (c.write a).render) = .ok a := by
  rw [decodeBytes_bytesOf, decode_render_of_nesting hexact.retold.legible hexact.nesting,
    hexact.retold.reread]
  exact ⟨h .text, h .text⟩

end Json
end FleetMesh
