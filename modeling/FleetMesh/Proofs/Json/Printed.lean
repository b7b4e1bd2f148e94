/-
Reading what was printed.

A value that is printed is read back as the value with its numbers reread, cut
off where containers are nested past the limit (`ofGlyphs_chars`).  It goes in two
steps: the scanner gives back the tokens that the value is written with
(`run_chars`), and these build the value again (`push_tokens`).

`Value.nesting` is how many containers are open at once.  A value whose nesting is
within the limit is not cut off at all (`nested_eq`).
-/
import FleetMesh.Proofs.Json.Number

namespace FleetMesh
namespace Json

open Text (Glyph)

namespace Value

mutual

theorem induct {P : Value → Prop} (null : P .null) (bool : ∀ b, P (.bool b))
    (number : ∀ n, P (.number n)) (string : ∀ s, P (.string s))
    (array : ∀ items, (∀ v ∈ items, P v) → P (.array items))
    (object : ∀ members, (∀ m ∈ members, P m.2) → P (.object members)) : ∀ v : Value, P v
  | .null => null
  | .bool b => bool b
  | .number n => number n
  | .string s => string s
  | .array items => array items (inductItems null bool number string array object items)
  | .object members => object members (inductMembers null bool number string array object members)

theorem inductItems {P : Value → Prop} (null : P .null) (bool : ∀ b, P (.bool b))
    (number : ∀ n, P (.number n)) (string : ∀ s, P (.string s))
    (array : ∀ items, (∀ v ∈ items, P v) → P (.array items))
    (object : ∀ members, (∀ m ∈ members, P m.2) → P (.object members)) :
    ∀ items : List Value, ∀ v ∈ items, P v
  | [], _, hv => absurd hv List.not_mem_nil
  | w :: rest, v, hv => by
    rcases List.mem_cons.mp hv with hv | hv
    · rw [hv]
      exact induct null bool number string array object w
    · exact inductItems null bool number string array object rest v hv

theorem inductMembers {P : Value → Prop} (null : P .null) (bool : ∀ b, P (.bool b))
    (number : ∀ n, P (.number n)) (string : ∀ s, P (.string s))
    (array : ∀ items, (∀ v ∈ items, P v) → P (.array items))
    (object : ∀ members, (∀ m ∈ members, P m.2) → P (.object members)) :
    ∀ members : List (String × Value), ∀ m ∈ members, P m.2
  | [], _, hm => absurd hm List.not_mem_nil
  | (k, w) :: rest, m, hm => by
    rcases List.mem_cons.mp hm with hm | hm
    · rw [hm]
      exact induct null bool number string array object w
    · exact inductMembers null bool number string array object rest m hm

end

mutual

/-- The numbers in a value. -/
def numbers : Value → List Number
  | number n => [n]
  | array items => itemNumbers items
  | object members => memberNumbers members
  | _ => []

def itemNumbers : List Value → List Number
  | [] => []
  | v :: rest => v.numbers ++ itemNumbers rest

def memberNumbers : List (String × Value) → List Number
  | [] => []
  | (_, v) :: rest => v.numbers ++ memberNumbers rest

end

/-- The numerals that the value is written with write numbers again. -/
def Legible (v : Value) : Prop := ∀ n ∈ v.numbers, n.Legible

mutual

/-- The value with its numbers as they are read back. -/
def reread : Value → Value
  | number n => number n.reread
  | array items => array (itemsReread items)
  | object members => object (membersReread members)
  | v => v

def itemsReread : List Value → List Value
  | [] => []
  | v :: rest => v.reread :: itemsReread rest

def membersReread : List (String × Value) → List (String × Value)
  | [] => []
  | (k, v) :: rest => (k, v.reread) :: membersReread rest

end

mutual

/-- How many containers are open at once, at most. -/
def nesting : Value → Nat
  | array items => itemNesting items + 1
  | object members => memberNesting members + 1
  | _ => 0

def itemNesting : List Value → Nat
  | [] => 0
  | v :: rest => max v.nesting (itemNesting rest)

def memberNesting : List (String × Value) → Nat
  | [] => 0
  | (_, v) :: rest => max v.nesting (memberNesting rest)

end

mutual

/-- The tokens that a value is written with. -/
def tokens : Value → List Token
  | null => [.leaf .null]
  | bool b => [.leaf (.bool b)]
  | number n => [.leaf (.number n)]
  | string s => [.leaf (.string s)]
  | array [] => [.openArray, .closeArray]
  | array (v :: rest) => .openArray :: v.tokens ++ moreItemTokens rest
  | object [] => [.openObject, .closeObject]
  | object ((k, v) :: rest) =>
    .openObject :: .leaf (.string k) :: .colon :: v.tokens ++ moreMemberTokens rest

def moreItemTokens : List Value → List Token
  | [] => [.closeArray]
  | v :: rest => .comma :: v.tokens ++ moreItemTokens rest

def moreMemberTokens : List (String × Value) → List Token
  | [] => [.closeObject]
  | (k, v) :: rest => .comma :: .leaf (.string k) :: .colon :: v.tokens ++ moreMemberTokens rest

end

theorem mem_itemNumbers {items : List Value} {n : Number} :
    n ∈ itemNumbers items ↔ ∃ v ∈ items, n ∈ v.numbers := by
  induction items with
  | nil => simp [itemNumbers]
  | cons v rest ih => simp [itemNumbers, ih]

theorem mem_memberNumbers {members : List (String × Value)} {n : Number} :
    n ∈ memberNumbers members ↔ ∃ m ∈ members, n ∈ m.2.numbers := by
  induction members with
  | nil => simp [memberNumbers]
  | cons m rest ih =>
    obtain ⟨k, v⟩ := m
    simp [memberNumbers, ih]

theorem itemsReread_eq (items : List Value) : itemsReread items = items.map reread := by
  induction items with
  | nil => rfl
  | cons v rest ih => rw [itemsReread, ih]; rfl

theorem membersReread_eq (members : List (String × Value)) :
    membersReread members = Keyed.mapValues reread members := by
  induction members with
  | nil => rfl
  | cons m rest ih =>
    obtain ⟨k, v⟩ := m
    rw [membersReread, ih]
    rfl

theorem nesting_item_lt {items : List Value} {v : Value} (h : v ∈ items) :
    v.nesting < (array items).nesting := by
  rw [show (array items).nesting = itemNesting items + 1 by rw [nesting], Nat.lt_succ_iff]
  induction items with
  | nil => exact absurd h List.not_mem_nil
  | cons w rest ih =>
    rw [itemNesting]
    rcases List.mem_cons.mp h with rfl | h
    · exact Nat.le_max_left _ _
    · exact Nat.le_trans (ih h) (Nat.le_max_right _ _)

theorem nesting_member_lt {members : List (String × Value)} {m : String × Value}
    (h : m ∈ members) : m.2.nesting < (object members).nesting := by
  rw [show (object members).nesting = memberNesting members + 1 by rw [nesting], Nat.lt_succ_iff]
  induction members with
  | nil => exact absurd h List.not_mem_nil
  | cons w rest ih =>
    obtain ⟨k, v⟩ := w
    rw [memberNesting]
    rcases List.mem_cons.mp h with rfl | h
    · exact Nat.le_max_left _ _
    · exact Nat.le_trans (ih h) (Nat.le_max_right _ _)

theorem Legible.item {items : List Value} (h : (array items).Legible) {v : Value}
    (hv : v ∈ items) : v.Legible := fun n hn => by
  refine h n ?_
  rw [numbers]
  exact mem_itemNumbers.mpr ⟨v, hv, hn⟩

theorem Legible.member {members : List (String × Value)} (h : (object members).Legible)
    {m : String × Value} (hm : m ∈ members) : m.2.Legible := fun n hn => by
  refine h n ?_
  rw [numbers]
  exact mem_memberNumbers.mpr ⟨m, hm, hn⟩

theorem legible_object {members : List (String × Value)} (h : ∀ m ∈ members, m.2.Legible) :
    (object members).Legible := by
  intro n hn
  rw [numbers, mem_memberNumbers] at hn
  obtain ⟨m, hm, hn⟩ := hn
  exact h m hm n hn

theorem legible_leaf {v : Value} (h : v.numbers = []) : v.Legible :=
  fun _ hn => absurd (h ▸ hn) List.not_mem_nil

end Value

/-! ## The scanner -/

namespace Scan

theorem run_comma (rest : List Glyph) :
    between.run (.char ',' :: rest) = .comma :: between.run rest := rfl

theorem run_colon (rest : List Glyph) :
    between.run (.char ':' :: rest) = .colon :: between.run rest := rfl

theorem run_openArray (rest : List Glyph) :
    between.run (.char '[' :: rest) = .openArray :: between.run rest := rfl

theorem run_closeArray (rest : List Glyph) :
    between.run (.char ']' :: rest) = .closeArray :: between.run rest := rfl

theorem run_openObject (rest : List Glyph) :
    between.run (.char '\x7b' :: rest) = .openObject :: between.run rest := rfl

theorem run_closeObject (rest : List Glyph) :
    between.run (.char '\x7d' :: rest) = .closeObject :: between.run rest := rfl

theorem ends_moreItems (items : List Value) (rest : List Glyph) :
    Ends (glyphs (Value.moreItems items) ++ rest) := by
  intro g hg
  cases items with
  | nil => simp_all [Value.moreItems]
  | cons v items => simp_all [Value.moreItems]

theorem ends_moreMembers (members : List (String × Value)) (rest : List Glyph) :
    Ends (glyphs (Value.moreMembers members) ++ rest) := by
  intro g hg
  cases members with
  | nil => simp_all [Value.moreMembers]
  | cons m members =>
    obtain ⟨k, v⟩ := m
    simp_all [Value.moreMembers]

/-- What is scanned of a value that is printed, whatever follows that cannot continue it. -/
def Scanned (v : Value) : Prop :=
  v.Legible → ∀ rest, Ends rest →
    between.run (glyphs v.chars ++ rest) = v.reread.tokens ++ between.run rest

theorem run_moreItems {items : List Value} (h : ∀ v ∈ items, Scanned v)
    (hlegible : ∀ v ∈ items, v.Legible) (rest : List Glyph) :
    between.run (glyphs (Value.moreItems items) ++ rest)
      = Value.moreItemTokens (Value.itemsReread items) ++ between.run rest := by
  induction items with
  | nil => exact run_closeArray rest
  | cons v items ih =>
    obtain ⟨hv, hitems⟩ := List.forall_mem_cons.mp h
    obtain ⟨lv, litems⟩ := List.forall_mem_cons.mp hlegible
    rw [Value.moreItems, List.cons_append, glyphs_cons, glyphs_append, List.cons_append,
      List.append_assoc, run_comma, hv lv _ (ends_moreItems items rest), ih hitems litems,
      Value.itemsReread, Value.moreItemTokens]
    simp only [List.cons_append, List.append_assoc]

theorem run_member {k : String} {v : Value} (h : Scanned v) (hlegible : v.Legible)
    {rest : List Glyph} (hrest : Ends rest) :
    between.run (glyphs (stringText k ++ ':' :: v.chars) ++ rest)
      = .leaf (.string k) :: .colon :: v.reread.tokens ++ between.run rest := by
  rw [glyphs_append, List.append_assoc, run_stringText, glyphs_cons, List.cons_append, run_colon,
    h hlegible rest hrest]
  rfl

theorem run_moreMembers {members : List (String × Value)} (h : ∀ m ∈ members, Scanned m.2)
    (hlegible : ∀ m ∈ members, m.2.Legible) (rest : List Glyph) :
    between.run (glyphs (Value.moreMembers members) ++ rest)
      = Value.moreMemberTokens (Value.membersReread members) ++ between.run rest := by
  induction members with
  | nil => exact run_closeObject rest
  | cons m members ih =>
    obtain ⟨k, v⟩ := m
    obtain ⟨hv, hmembers⟩ := List.forall_mem_cons.mp h
    obtain ⟨lv, lmembers⟩ := List.forall_mem_cons.mp hlegible
    have htext : Value.moreMembers ((k, v) :: members)
        = ',' :: ((stringText k ++ ':' :: v.chars) ++ Value.moreMembers members) := by
      rw [Value.moreMembers]
      simp only [List.cons_append, List.append_assoc]
    rw [htext, glyphs_cons, glyphs_append, List.cons_append, List.append_assoc, run_comma,
      run_member hv lv (ends_moreMembers members rest), ih hmembers lmembers,
      Value.membersReread, Value.moreMemberTokens]
    simp only [List.cons_append, List.append_assoc]

theorem run_chars (v : Value) : Scanned v := by
  induction v using Value.induct with
  | null => exact fun _ rest _ => run_null rest
  | bool b =>
    intro _ rest _
    cases b with
    | true => exact run_true rest
    | false => exact run_false rest
  | number n => exact fun h rest hrest => (h n (List.mem_singleton.mpr rfl)).run hrest
  | string s => exact fun _ rest _ => run_stringText s rest
  | array items ih =>
    intro hlegible rest _
    have litems : ∀ v ∈ items, v.Legible := fun v hv => hlegible.item hv
    cases items with
    | nil => rfl
    | cons v items =>
      obtain ⟨hv, hitems⟩ := List.forall_mem_cons.mp ih
      obtain ⟨lv, litems⟩ := List.forall_mem_cons.mp litems
      rw [Value.chars, List.cons_append, glyphs_cons, glyphs_append, List.cons_append,
        List.append_assoc, run_openArray, hv lv _ (ends_moreItems items rest),
        run_moreItems hitems litems, Value.reread, Value.itemsReread, Value.tokens]
      simp only [List.cons_append, List.append_assoc]
  | object members ih =>
    intro hlegible rest _
    have lmembers : ∀ m ∈ members, m.2.Legible := fun m hm => hlegible.member hm
    cases members with
    | nil => rfl
    | cons m members =>
      obtain ⟨k, v⟩ := m
      obtain ⟨hv, hmembers⟩ := List.forall_mem_cons.mp ih
      obtain ⟨lv, lmembers⟩ := List.forall_mem_cons.mp lmembers
      have htext : (Value.object ((k, v) :: members)).chars
          = '\x7b' :: ((stringText k ++ ':' :: v.chars) ++ Value.moreMembers members) := by
        rw [Value.chars]
        simp only [List.cons_append, List.append_assoc]
      rw [htext, glyphs_cons, glyphs_append, List.cons_append, List.append_assoc, run_openObject,
        run_member hv lv (ends_moreMembers members rest), run_moreMembers hmembers lmembers,
        Value.reread, Value.membersReread, Value.tokens]
      simp only [List.cons_append, List.append_assoc]

end Scan

/-! ## The builder -/

namespace Doc

mutual

/-- A value inside `outer` containers, as its tokens build it: a container past the limit is
there and cannot be entered. -/
def nested (outer : Nat) : Value → Doc
  | .array items => atDepth outer (array (nestedItems (outer + 1) items) none)
  | .object members => atDepth outer (object (nestedMembers (outer + 1) members) none)
  | .null => null
  | .bool b => bool b
  | .number n => number n
  | .string s => string s

def nestedItems (outer : Nat) : List Value → List Doc
  | [] => []
  | v :: rest => nested outer v :: nestedItems outer rest

def nestedMembers (outer : Nat) : List (String × Value) → List (Doc × Doc)
  | [] => []
  | (k, v) :: rest => (string k, nested outer v) :: nestedMembers outer rest

end

/-- The tokens of the value, where a value has to come, build it and put it in its place. -/
def Built (v : Value) : Prop :=
  ∀ frames, ∃ t ts, v.tokens = t :: ts ∧ t ≠ .closeArray ∧ ∀ more,
    (ts ++ more).foldl push (pushValue frames t)
      = more.foldl push (place (nested frames.length v) frames)

theorem Built.value {v : Value} (h : Built v) (frames : List Frame) (more : List Token) :
    (v.tokens ++ more).foldl push (.reading frames .value)
      = more.foldl push (place (nested frames.length v) frames) := by
  obtain ⟨t, ts, ht, -, hbuild⟩ := h frames
  rw [ht, List.cons_append, List.foldl_cons]
  exact hbuild more

/-- The same just after the bracket that opens an array. -/
theorem Built.first {v : Value} (h : Built v) (outer : List Frame) (more : List Token) :
    (v.tokens ++ more).foldl push (.reading (.array [] :: outer) .first)
      = more.foldl push (.reading (.array [nested (outer.length + 1) v] :: outer) .comma) := by
  obtain ⟨t, ts, ht, hclose, hbuild⟩ := h (.array [] :: outer)
  have hfirst : push (.reading (.array [] :: outer) .first) t
      = pushValue (.array [] :: outer) t := by
    cases t <;> first | rfl | exact absurd rfl hclose
  rw [ht, List.cons_append, List.foldl_cons, hfirst]
  exact hbuild more

theorem push_moreItems {items : List Value} (h : ∀ v ∈ items, Built v) (done : List Doc)
    (outer : List Frame) (more : List Token) :
    (Value.moreItemTokens items ++ more).foldl push (.reading (.array done :: outer) .comma)
      = more.foldl push (place (atDepth outer.length
          (array (done.reverse ++ nestedItems (outer.length + 1) items) none)) outer) := by
  induction items generalizing done with
  | nil =>
    rw [nestedItems, List.append_nil]
    rfl
  | cons v items ih =>
    obtain ⟨hv, hitems⟩ := List.forall_mem_cons.mp h
    rw [Value.moreItemTokens, List.cons_append, List.cons_append, List.append_assoc,
      List.foldl_cons]
    refine (hv.value (.array done :: outer) _).trans ?_
    refine (ih hitems (nested (outer.length + 1) v :: done)).trans ?_
    rw [nestedItems, List.reverse_cons, List.append_assoc]
    rfl

/-- A member, where a name has to come. -/
theorem push_member {v : Value} (h : Built v) (k : String) (done : List (Doc × Doc))
    (outer : List Frame) (more : List Token) :
    (.leaf (.string k) :: .colon :: v.tokens ++ more).foldl push
        (.reading (.object done :: outer) .name)
      = more.foldl push (.reading (.object ((string k, nested (outer.length + 1) v) :: done) ::
          outer) .comma) :=
  h.value (.field done (string k) :: outer) more

theorem push_moreMembers {members : List (String × Value)} (h : ∀ m ∈ members, Built m.2)
    (done : List (Doc × Doc)) (outer : List Frame) (more : List Token) :
    (Value.moreMemberTokens members ++ more).foldl push
        (.reading (.object done :: outer) .comma)
      = more.foldl push (place (atDepth outer.length
          (object (done.reverse ++ nestedMembers (outer.length + 1) members) none)) outer) := by
  induction members generalizing done with
  | nil =>
    rw [nestedMembers, List.append_nil]
    rfl
  | cons m members ih =>
    obtain ⟨k, v⟩ := m
    obtain ⟨hv, hmembers⟩ := List.forall_mem_cons.mp h
    rw [Value.moreMemberTokens, List.append_assoc]
    refine (push_member hv k done outer _).trans ?_
    refine (ih hmembers ((string k, nested (outer.length + 1) v) :: done)).trans ?_
    rw [nestedMembers, List.reverse_cons, List.append_assoc]
    rfl

theorem push_tokens (v : Value) : Built v := by
  induction v using Value.induct with
  | null => exact fun frames => ⟨_, [], rfl, nofun, fun more => rfl⟩
  | bool b => exact fun frames => ⟨_, [], rfl, nofun, fun more => rfl⟩
  | number n => exact fun frames => ⟨_, [], rfl, nofun, fun more => rfl⟩
  | string s => exact fun frames => ⟨_, [], rfl, nofun, fun more => rfl⟩
  | array items ih =>
    intro frames
    cases items with
    | nil =>
      refine ⟨.openArray, [.closeArray], by rw [Value.tokens], nofun, fun more => ?_⟩
      rw [nested, nestedItems]
      rfl
    | cons v items =>
      obtain ⟨hv, hitems⟩ := List.forall_mem_cons.mp ih
      refine ⟨.openArray, v.tokens ++ Value.moreItemTokens items, by rw [Value.tokens]; rfl,
        nofun, fun more => ?_⟩
      rw [List.append_assoc]
      refine (hv.first frames _).trans ?_
      refine (push_moreItems hitems [nested (frames.length + 1) v] frames more).trans ?_
      rw [nested, nestedItems]
      rfl
  | object members ih =>
    intro frames
    cases members with
    | nil =>
      refine ⟨.openObject, [.closeObject], by rw [Value.tokens], nofun, fun more => ?_⟩
      rw [nested, nestedMembers]
      rfl
    | cons m members =>
      obtain ⟨k, v⟩ := m
      obtain ⟨hv, hmembers⟩ := List.forall_mem_cons.mp ih
      refine ⟨.openObject,
        (.leaf (.string k) :: .colon :: v.tokens) ++ Value.moreMemberTokens members,
        by rw [Value.tokens]; rfl, nofun, fun more => ?_⟩
      rw [List.append_assoc]
      refine (push_member hv k [] frames _).trans ?_
      refine (push_moreMembers hmembers [(string k, nested (frames.length + 1) v)] frames
        more).trans ?_
      rw [nested, nestedMembers]
      rfl

/-- A value that is printed is read back with its numbers reread, cut off at the limit. -/
theorem ofGlyphs_chars {v : Value} (h : v.Legible) :
    ofGlyphs (glyphs v.chars) = (nested 0 v.reread, false) := by
  have hscan := Scan.run_chars v h [] (fun g hg => (nomatch hg))
  have hbuild := (push_tokens v.reread).value [] []
  rw [List.append_nil, show Scan.between.run [] = [] from rfl, List.append_nil] at hscan
  rw [List.append_nil] at hbuild
  rw [ofGlyphs, Scan.ofGlyphs_eq_run, hscan, ofTokens, hbuild]
  rfl

/-! ## Within the limit -/

theorem nestedItems_eq (outer : Nat) (items : List Value) :
    nestedItems outer items = items.map (nested outer) := by
  induction items with
  | nil => rfl
  | cons v rest ih => rw [nestedItems, ih]; rfl

theorem nestedMembers_eq (outer : Nat) (members : List (String × Value)) :
    nestedMembers outer members = members.map (fun m => (string m.1, nested outer m.2)) := by
  induction members with
  | nil => rfl
  | cons m rest ih =>
    obtain ⟨k, v⟩ := m
    rw [nestedMembers, ih]
    rfl

theorem ofItems_eq (items : List Value) : ofItems items = items.map ofValue := by
  induction items with
  | nil => rfl
  | cons v rest ih => rw [ofItems, ih]; rfl

theorem ofMembers_eq (members : List (String × Value)) :
    ofMembers members = members.map (fun m => (string m.1, ofValue m.2)) := by
  induction members with
  | nil => rfl
  | cons m rest ih =>
    obtain ⟨k, v⟩ := m
    rw [ofMembers, ih]
    rfl

theorem atDepth_within {outer : Nat} (h : outer < nestingLimit) (d : Doc) : atDepth outer d = d :=
  if_neg (Nat.not_le.mpr h)

/-- What stays within the limit is not cut off. -/
theorem nested_eq {v : Value} {outer : Nat} (h : outer + v.nesting ≤ nestingLimit) :
    nested outer v = ofValue v := by
  induction v using Value.induct generalizing outer with
  | null => rfl
  | bool b => rfl
  | number n => rfl
  | string s => rfl
  | array items ih =>
    have hpos : 0 < (Value.array items).nesting := by rw [Value.nesting]; exact Nat.succ_pos _
    rw [nested, atDepth_within (by omega), nestedItems_eq, ofValue, ofItems_eq]
    congr 1
    refine List.map_congr_left fun v hv => ih v hv ?_
    have hlt := Value.nesting_item_lt hv
    omega
  | object members ih =>
    have hpos : 0 < (Value.object members).nesting := by rw [Value.nesting]; exact Nat.succ_pos _
    rw [nested, atDepth_within (by omega), nestedMembers_eq, ofValue, ofMembers_eq]
    congr 1
    refine List.map_congr_left fun m hm => congrArg (Prod.mk _) (ih m hm ?_)
    have hlt := Value.nesting_member_lt hm
    omega

theorem nesting_reread (v : Value) : v.reread.nesting = v.nesting := by
  induction v using Value.induct with
  | null | bool b | number n | string s => rfl
  | array items ih =>
    rw [Value.reread, Value.nesting, Value.nesting]
    congr 1
    induction items with
    | nil => rfl
    | cons v rest ihrest =>
      obtain ⟨hv, hrest⟩ := List.forall_mem_cons.mp ih
      rw [Value.itemsReread, Value.itemNesting, Value.itemNesting, hv, ihrest hrest]
  | object members ih =>
    rw [Value.reread, Value.nesting, Value.nesting]
    congr 1
    induction members with
    | nil => rfl
    | cons m rest ihrest =>
      obtain ⟨k, v⟩ := m
      obtain ⟨hv, hrest⟩ := List.forall_mem_cons.mp ih
      rw [Value.membersReread, Value.memberNesting, Value.memberNesting, hv, ihrest hrest]

end Doc

end Json
end FleetMesh
