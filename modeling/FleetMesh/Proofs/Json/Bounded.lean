/-
What a text can hold.

Whatever a text is, the value that is built of its tokens has no container past the
nesting limit that could be entered, and every number in it is one that a numeral
writes (`ofGlyphs_bounded`).  Free-form content that is read from it is then within
the limit too, has the members of its objects in order, and can be written again
(`freeForm_bounded`).
-/
import FleetMesh.Json.Decode
import FleetMesh.Proofs.Json.Codec
import FleetMesh.Proofs.Json.Float

namespace FleetMesh
namespace Json

open Text (Glyph)

/-- A number as a numeral writes it: an integer of 64 bits, or a float. -/
def Number.Portable : Number → Prop
  | .int n => -0x8000000000000000 ≤ n ∧ n ≤ 0xffffffffffffffff
  | .float x => x.Fits

/-! ## Numbers -/

namespace Numeral

theorem gather_le {n : ℕ} (hn : n ≤ maxWord) (ds : List ℕ) : (gather n ds).1 ≤ maxWord := by
  induction ds generalizing n with
  | nil => exact hn
  | cons d ds ih =>
    rw [gather]
    split
    · rename_i h
      exact ih h
    · exact hn

theorem portable_of_toFloat {negative : Bool} {n : ℕ} {e : ℤ} {number : Number}
    (h : toFloat negative n e = some number) : number.Portable := by
  cases number with
  | int i => exact absurd h toFloat_ne_int
  | float x => exact fits_of_toFloat h

theorem portable_of_number {m : Numeral} {number : Number} (h : m.number = some number) :
    number.Portable := by
  have hword := gather_le (Nat.zero_le maxWord) m.whole
  rw [Numeral.number] at h
  generalize gather 0 m.whole = whole at h hword
  obtain ⟨n, left⟩ := whole
  have hmax : maxWord = 0xffffffffffffffff := rfl
  dsimp only at h hword
  split at h
  · split at h
    · exact portable_of_toFloat h
    · split at h
      · obtain rfl := Option.some.inj h
        show _ ∧ _
        omega
      · split at h
        · exact portable_of_toFloat h
        · obtain rfl := Option.some.inj h
          show _ ∧ _
          omega
  · exact portable_of_toFloat h

end Numeral

namespace Number

theorem Portable.legible {n : Number} (h : n.Portable) : n.Legible := by
  cases n with
  | int n => exact (legible_int h).1
  | float x => exact legible_float h

theorem Portable.reread {n : Number} (h : n.Portable) : n.reread.Portable :=
  Numeral.portable_of_number h.legible.number

end Number

/-! ## Tokens -/

/-- A token of one value that is neither a container nor a number that no numeral writes. -/
def Token.Plain : Token → Prop
  | .leaf (.number n) => n.Portable
  | .leaf (.array ..) | .leaf (.object ..) => False
  | _ => True

namespace Scan

/-- The word that is being read stands for a value that is no number. -/
def Plain : Scan → Prop
  | .word _ d => Token.Plain (.leaf d)
  | _ => True

theorem plain_ofNumeral (m : Numeral) : (Token.ofNumeral m).Plain := by
  rw [Token.ofNumeral]
  dsimp only
  split
  · rename_i n hn
    exact Numeral.portable_of_number hn
  · trivial

theorem plain_ofPartial (p : Partial) : (Token.ofPartial p).Plain := by
  rw [Token.ofPartial]
  split <;> trivial

/-- What a step gives: tokens that are plain, and a state that is. -/
def Yields (result : List Token × Scan) : Prop := (∀ t ∈ result.1, t.Plain) ∧ result.2.Plain

theorem yields_nil {s : Scan} (h : s.Plain) : Yields ([], s) :=
  ⟨fun _ ht => absurd ht List.not_mem_nil, h⟩

theorem yields_one {t : Token} {s : Scan} (ht : t.Plain) (h : s.Plain) : Yields ([t], s) :=
  ⟨fun _ hu => List.mem_singleton.mp hu ▸ ht, h⟩

theorem yields_ite {c : Prop} [Decidable c] {a b : List Token × Scan} (ha : Yields a)
    (hb : Yields b) : Yields (if c then a else b) := by
  split
  · exact ha
  · exact hb

theorem yields_broken (quoted : Bool) (fault : Fault) : Yields (broken quoted fault) :=
  yields_one (by trivial) (by trivial)

theorem yields_brokenString (p : Partial) (fault : Fault) : Yields (brokenString p fault) :=
  yields_one (by trivial) (by trivial)

theorem yields_start (g : Glyph) : Yields (start g) := by
  cases g with
  | stray n => exact yields_one (by trivial) (by trivial)
  | char c =>
    unfold start
    dsimp only
    repeat' apply yields_ite
    all_goals first
      | exact yields_nil (by trivial)
      | exact yields_one (by trivial) (by trivial)
      | split
    · exact yields_nil (by trivial)
    · exact yields_one (by trivial) (by trivial)

theorem yields_closeNumeral (m : Numeral) (g : Glyph) : Yields (closeNumeral m g) := by
  obtain ⟨htokens, hnext⟩ := yields_start g
  exact ⟨List.forall_mem_cons.mpr ⟨plain_ofNumeral m, htokens⟩, hnext⟩

theorem yields_afterDigits (place : Place) (m : Numeral) (g : Glyph) :
    Yields (afterDigits place m g) := by
  unfold afterDigits
  repeat' split
  all_goals first
    | exact yields_nil (by trivial)
    | exact yields_broken _ _
    | exact yields_closeNumeral m g

theorem yields_step {s : Scan} (hs : s.Plain) (g : Glyph) : Yields (s.step g) := by
  cases s with
  | between => exact yields_start g
  | word rest d =>
    unfold step
    dsimp only
    split
    · exact yields_nil (by trivial)
    · split
      · exact yields_one hs (by trivial)
      · exact yields_broken _ _
    · split
      · exact yields_nil hs
      · exact yields_broken _ _
  | numeral place m =>
    unfold step numeralStep
    dsimp only
    repeat' split
    all_goals first
      | exact yields_nil (by trivial)
      | exact yields_broken _ _
      | exact yields_afterDigits _ _ _
  | string p =>
    unfold step stringStep
    dsimp only
    repeat' split
    all_goals first
      | exact yields_nil (by trivial)
      | exact yields_brokenString _ _
      | exact yields_one (plain_ofPartial _) (by trivial)
  | escape p =>
    unfold step escapeStep
    dsimp only
    repeat' split
    all_goals first
      | exact yields_nil (by trivial)
      | exact yields_brokenString _ _
  | hex p left value =>
    unfold step hexStep
    dsimp only
    repeat' split
    all_goals first
      | exact yields_nil (by trivial)
      | exact yields_brokenString _ _
  | stopped => exact yields_nil (by trivial)

theorem plain_finish (s : Scan) : ∀ t ∈ s.finish, t.Plain := by
  intro t ht
  cases s with
  | between | stopped => exact absurd ht List.not_mem_nil
  | word rest d =>
    obtain rfl := List.mem_singleton.mp ht
    trivial
  | numeral place m =>
    cases place <;> obtain rfl := List.mem_singleton.mp ht <;>
      first | trivial | exact plain_ofNumeral m
  | string p | escape p | hex p _ _ =>
    exact (yields_brokenString p .truncated).1 t ht

theorem plain_run {s : Scan} (hs : s.Plain) (gs : List Glyph) : ∀ t ∈ s.run gs, t.Plain := by
  induction gs generalizing s with
  | nil => exact plain_finish s
  | cons g gs ih =>
    obtain ⟨htokens, hnext⟩ := yields_step hs g
    intro t ht
    rw [run_cons] at ht
    rcases List.mem_append.mp ht with ht | ht
    · exact htokens t ht
    · exact ih hnext t ht

end Scan

theorem Token.plain_ofGlyphs (gs : List Glyph) : ∀ t ∈ Token.ofGlyphs gs, t.Plain := by
  rw [Scan.ofGlyphs_eq_run]
  exact Scan.plain_run (by trivial) gs

/-! ## Docs -/

namespace Doc

mutual

/-- Inside `outer` containers: no container past the limit can be entered, and the numbers
are such as a numeral writes. -/
def Bounded (outer : ℕ) : Doc → Prop
  | number n => n.Portable
  | array items _ => outer < nestingLimit ∧ ItemsBounded (outer + 1) items
  | object fields _ => outer < nestingLimit ∧ FieldsBounded (outer + 1) fields
  | _ => True

def ItemsBounded (outer : ℕ) : List Doc → Prop
  | [] => True
  | d :: rest => d.Bounded outer ∧ ItemsBounded outer rest

def FieldsBounded (outer : ℕ) : List (Doc × Doc) → Prop
  | [] => True
  | (_, d) :: rest => d.Bounded outer ∧ FieldsBounded outer rest

end

theorem itemsBounded_iff {outer : ℕ} {items : List Doc} :
    ItemsBounded outer items ↔ ∀ d ∈ items, d.Bounded outer := by
  induction items with
  | nil => simp [ItemsBounded]
  | cons d rest ih => rw [ItemsBounded, ih, List.forall_mem_cons]

theorem fieldsBounded_iff {outer : ℕ} {fields : List (Doc × Doc)} :
    FieldsBounded outer fields ↔ ∀ f ∈ fields, f.2.Bounded outer := by
  induction fields with
  | nil => simp [FieldsBounded]
  | cons f rest ih =>
    obtain ⟨name, d⟩ := f
    rw [FieldsBounded, ih, List.forall_mem_cons]

theorem bounded_atDepth_array {outer : ℕ} {items : List Doc}
    (h : ∀ d ∈ items, d.Bounded (outer + 1)) (ending : Option Fault) :
    (atDepth outer (array items ending)).Bounded outer := by
  rw [atDepth]
  split
  · trivial
  · rename_i hlimit
    exact ⟨Nat.lt_of_not_le hlimit, itemsBounded_iff.mpr h⟩

theorem bounded_atDepth_object {outer : ℕ} {fields : List (Doc × Doc)}
    (h : ∀ f ∈ fields, f.2.Bounded (outer + 1)) (ending : Option Fault) :
    (atDepth outer (object fields ending)).Bounded outer := by
  rw [atDepth]
  split
  · trivial
  · rename_i hlimit
    exact ⟨Nat.lt_of_not_le hlimit, fieldsBounded_iff.mpr h⟩

/-- What the open containers hold so far is bounded. -/
def FramesBounded : List Frame → Prop
  | [] => True
  | .array items :: outer => (∀ d ∈ items, d.Bounded (outer.length + 1)) ∧ FramesBounded outer
  | .object fields :: outer | .field fields _ :: outer =>
    (∀ f ∈ fields, f.2.Bounded (outer.length + 1)) ∧ FramesBounded outer

/-- A name has to come only in an object. -/
def Builder.Bounded : Builder → Prop
  | .reading frames next =>
    FramesBounded frames ∧ (next = .name → ∃ fields outer, frames = .object fields :: outer)
  | .whole d _ => d.Bounded 0

theorem bounded_collapse {frames : List Frame} (h : FramesBounded frames) {d : Doc}
    (hd : d.Bounded frames.length) : (collapse d frames).Bounded 0 := by
  induction frames generalizing d with
  | nil => exact hd
  | cons frame outer ih =>
    cases frame with
    | array items =>
      obtain ⟨hitems, houter⟩ := h
      refine ih houter (bounded_atDepth_array (fun e he => ?_) none)
      rcases List.mem_cons.mp (List.mem_reverse.mp he) with rfl | he
      · exact hd
      · exact hitems e he
    | object fields =>
      obtain ⟨hfields, houter⟩ := h
      refine ih houter (bounded_atDepth_object (fun f hf => ?_) none)
      rcases List.mem_cons.mp (List.mem_reverse.mp hf) with rfl | hf
      · trivial
      · exact hfields f hf
    | field fields name =>
      obtain ⟨hfields, houter⟩ := h
      refine ih houter (bounded_atDepth_object (fun f hf => ?_) none)
      rcases List.mem_cons.mp (List.mem_reverse.mp hf) with rfl | hf
      · exact hd
      · exact hfields f hf

/-- In the place of a name anything may stand. -/
theorem bounded_collapse_name {fields : List (Doc × Doc)} {outer : List Frame}
    (h : FramesBounded (.object fields :: outer)) (d : Doc) :
    (collapse d (.object fields :: outer)).Bounded 0 := by
  obtain ⟨hfields, houter⟩ := h
  refine bounded_collapse houter (bounded_atDepth_object (fun f hf => ?_) none)
  rcases List.mem_cons.mp (List.mem_reverse.mp hf) with rfl | hf
  · trivial
  · exact hfields f hf

theorem bounded_collapseAt {frames : List Frame} (h : FramesBounded frames) (fault : Fault) :
    (collapseAt fault frames).Bounded 0 := by
  cases frames with
  | nil => trivial
  | cons frame outer =>
    cases frame with
    | array items =>
      exact bounded_collapse h.2
        (bounded_atDepth_array (fun e he => h.1 e (List.mem_reverse.mp he)) _)
    | object fields | field fields _ =>
      exact bounded_collapse h.2
        (bounded_atDepth_object (fun f hf => h.1 f (List.mem_reverse.mp hf)) _)

theorem bounded_place {frames : List Frame} (h : FramesBounded frames) {d : Doc}
    (hd : d.Bounded frames.length) : (place d frames).Bounded := by
  cases frames with
  | nil => exact hd
  | cons frame outer =>
    cases frame with
    | array items => exact ⟨⟨List.forall_mem_cons.mpr ⟨hd, h.1⟩, h.2⟩, nofun⟩
    | object fields => exact ⟨h, nofun⟩
    | field fields name => exact ⟨⟨List.forall_mem_cons.mpr ⟨hd, h.1⟩, h.2⟩, nofun⟩

theorem Token.Plain.bounded {d : Doc} (h : (Token.leaf d).Plain) (outer : ℕ) : d.Bounded outer := by
  cases d with
  | number n => exact h
  | array _ _ | object _ _ => exact h.elim
  | _ => trivial

theorem bounded_pushValue {frames : List Frame} (h : FramesBounded frames) {t : Token}
    (ht : t.Plain) : (pushValue frames t).Bounded := by
  cases t with
  | leaf d =>
    rw [pushValue]
    split
    · exact bounded_collapse h (Token.Plain.bounded ht _)
    · exact bounded_place h (Token.Plain.bounded ht _)
  | openArray => exact ⟨⟨fun _ hd => absurd hd List.not_mem_nil, h⟩, nofun⟩
  | openObject => exact ⟨⟨fun _ hd => absurd hd List.not_mem_nil, h⟩, nofun⟩
  | _ => exact bounded_collapse h (by trivial)

theorem bounded_pushName {fields : List (Doc × Doc)} {outer : List Frame}
    (h : FramesBounded (.object fields :: outer)) (t : Token) :
    (pushName (.object fields :: outer) t).Bounded := by
  cases t with
  | leaf d => cases d <;> first | exact bounded_collapse_name h _ | exact ⟨h, nofun⟩
  | _ => exact bounded_collapse_name h _

theorem bounded_close_array {items : List Doc} {outer : List Frame}
    (h : FramesBounded (.array items :: outer)) :
    (place (atDepth outer.length (array items.reverse none)) outer).Bounded :=
  bounded_place h.2 (bounded_atDepth_array (fun d hd => h.1 d (List.mem_reverse.mp hd)) none)

theorem bounded_close_object {fields : List (Doc × Doc)} {outer : List Frame}
    (h : FramesBounded (.object fields :: outer)) :
    (place (atDepth outer.length (object fields.reverse none)) outer).Bounded :=
  bounded_place h.2 (bounded_atDepth_object (fun f hf => h.1 f (List.mem_reverse.mp hf)) none)

theorem bounded_push {b : Builder} (hb : b.Bounded) {t : Token} (ht : t.Plain) :
    (push b t).Bounded := by
  cases b with
  | whole d more => exact hb
  | reading frames next =>
    obtain ⟨h, hname⟩ := hb
    cases next with
    | value => exact bounded_pushValue h ht
    | name =>
      obtain ⟨fields, outer, rfl⟩ := hname rfl
      exact bounded_pushName h t
    | colon => cases t <;> first | exact ⟨h, nofun⟩ | exact bounded_collapse h (by trivial)
    | first =>
      cases frames with
      | nil => exact bounded_pushValue h ht
      | cons frame outer =>
        cases frame with
        | array items =>
          cases t <;> first | exact bounded_close_array h | exact bounded_pushValue h ht
        | object fields =>
          by_cases hclose : t = .closeObject
          · subst hclose
            exact bounded_close_object h
          · have hname : push (.reading (.object fields :: outer) .first) t
                = pushName (.object fields :: outer) t := by
              cases t <;> first | rfl | exact absurd rfl hclose
            rw [hname]
            exact bounded_pushName h t
        | field fields name => exact bounded_pushValue h ht
    | comma =>
      cases frames with
      | nil => exact bounded_collapseAt h .malformed
      | cons frame outer =>
        cases frame with
        | array items =>
          cases t <;> first
            | exact bounded_close_array h
            | exact ⟨h, nofun⟩
            | exact bounded_collapseAt h .malformed
        | object fields =>
          cases t <;> first
            | exact bounded_close_object h
            | exact ⟨h, fun _ => ⟨fields, outer, rfl⟩⟩
            | exact bounded_collapseAt h .malformed
        | field fields name => exact bounded_collapseAt h .malformed

theorem bounded_finish {b : Builder} (hb : b.Bounded) : (finish b).1.Bounded 0 := by
  cases b with
  | whole d more => exact hb
  | reading frames next =>
    obtain ⟨h, -⟩ := hb
    cases next with
    | value | colon | name => exact bounded_collapse h (by trivial)
    | first | comma => exact bounded_collapseAt h _

/-- The value of a text is bounded, whatever the text is. -/
theorem ofGlyphs_bounded (gs : List Glyph) : (ofGlyphs gs).1.Bounded 0 := by
  have hfold : ∀ (tokens : List Token) (b : Builder), (∀ t ∈ tokens, t.Plain) → b.Bounded →
      (tokens.foldl push b).Bounded := by
    intro tokens
    induction tokens with
    | nil => exact fun b _ hb => hb
    | cons t tokens ih =>
      intro b htokens hb
      obtain ⟨ht, htokens⟩ := List.forall_mem_cons.mp htokens
      exact ih _ htokens (bounded_push hb ht)
  exact bounded_finish (hfold _ _ (Token.plain_ofGlyphs gs) ⟨trivial, nofun⟩)

end Doc

/-! ## What is read from a bounded value -/

theorem Doc.Bounded.parts {outer : ℕ} {d : Doc} (h : d.Bounded outer) :
    ∀ c ∈ d.parts, c.Bounded (outer + 1) := by
  cases d with
  | array items ending => exact Doc.itemsBounded_iff.mp h.2
  | object fields ending =>
    intro c hc
    obtain ⟨f, hf, rfl⟩ := List.mem_map.mp hc
    exact Doc.fieldsBounded_iff.mp h.2 f hf
  | _ => exact fun c hc => absurd hc List.not_mem_nil

/-- A record is read from a container, so there is room for one. -/
theorem Record.room {ts : List Type} {r : Record ts} {source : Source} {d : Doc} {outer : ℕ}
    {row : Row ts} (hd : d.Bounded outer) (hread : r.read source d = .ok row) :
    outer < Doc.nestingLimit := by
  cases d with
  | array items ending => exact hd.1
  | object fields ending => exact hd.1
  | _ => cases hread

theorem range_of_integer {low high n : ℤ} {name : String} {source : Source} {d : Doc}
    (h : Read.integer low high name source d = .ok n) : low ≤ n ∧ n ≤ high := by
  cases d with
  | number m =>
    cases m with
    | int i =>
      rw [Read.integer] at h
      split at h
      · rename_i hi
        exact Except.ok.inj h ▸ hi
      · cases h
    | float x => exact absurd h (refuse_ne_ok _ _ _)
  | _ => exact absurd h (refuse_ne_ok _ _ _)

theorem le_of_natural {high n : ℕ} {name : String} {source : Source} {d : Doc}
    (h : Read.natural high name source d = .ok n) : n ≤ high := by
  obtain ⟨i, hi, rfl⟩ := map_eq_ok.mp h
  exact Int.toNat_le.mpr (range_of_integer hi).2

/-! ## Free-form content -/

/-- Content as it is kept: the members of its objects in order, and the numbers such as a
numeral writes. -/
structure Value.Portable (v : Value) : Prop where
  sorted : v.sorted = v
  numbers : ∀ n ∈ v.numbers, n.Portable

theorem Value.Portable.legible {v : Value} (h : v.Portable) : v.Legible :=
  fun n hn => (h.numbers n hn).legible

/-- Content that was read inside `outer` containers. -/
def Value.Within (outer : ℕ) (v : Value) : Prop :=
  v.Portable ∧ v.nesting ≤ Doc.nestingLimit - outer

namespace Value

theorem itemNesting_le {items : List Value} {k : ℕ} (h : ∀ v ∈ items, v.nesting ≤ k) :
    itemNesting items ≤ k := by
  induction items with
  | nil => exact Nat.zero_le k
  | cons v rest ih =>
    obtain ⟨hv, hrest⟩ := List.forall_mem_cons.mp h
    rw [itemNesting]
    exact Nat.max_le.mpr ⟨hv, ih hrest⟩

theorem memberNesting_le {members : List (String × Value)} {k : ℕ}
    (h : ∀ m ∈ members, m.2.nesting ≤ k) : memberNesting members ≤ k := by
  induction members with
  | nil => exact Nat.zero_le k
  | cons m rest ih =>
    obtain ⟨name, v⟩ := m
    obtain ⟨hv, hrest⟩ := List.forall_mem_cons.mp h
    rw [memberNesting]
    exact Nat.max_le.mpr ⟨hv, ih hrest⟩

theorem within_leaf {outer : ℕ} {v : Value} (hsorted : v.sorted = v) (hnumbers : v.numbers = [])
    (hnesting : v.nesting = 0) : v.Within outer :=
  ⟨⟨hsorted, fun _ hn => absurd (hnumbers ▸ hn) List.not_mem_nil⟩, hnesting ▸ Nat.zero_le _⟩

theorem within_array {outer : ℕ} (houter : outer < Doc.nestingLimit) {items : List Value}
    (h : ∀ v ∈ items, v.Within (outer + 1)) : (array items).Within outer := by
  refine ⟨⟨?_, fun n hn => ?_⟩, ?_⟩
  · have hsorted : items.map sorted = items :=
      (List.map_congr_left (g := id) fun v hv => (h v hv).1.sorted).trans (List.map_id items)
    rw [sorted, sortedItems_eq, hsorted]
  · rw [numbers, mem_itemNumbers] at hn
    obtain ⟨v, hv, hn⟩ := hn
    exact (h v hv).1.numbers n hn
  · have hle := itemNesting_le fun v hv => (h v hv).2
    rw [nesting]
    omega

theorem within_object {outer : ℕ} (houter : outer < Doc.nestingLimit)
    {members : List (String × Value)} (h : ∀ m ∈ members, m.2.Within (outer + 1)) :
    (object (Keyed.ofList members)).Within outer := by
  have hkept : ∀ m ∈ Keyed.ofList members, m.2.Within (outer + 1) :=
    fun m hm => h m (Keyed.mem_ofList hm)
  refine ⟨⟨?_, fun n hn => ?_⟩, ?_⟩
  · rw [sorted, sortedMembers_eq, Keyed.mapValues_eq_self_iff.mpr fun m hm => (hkept m hm).1.sorted,
      Keyed.ofList_of_ordered (Keyed.ordered_ofList members)]
  · rw [numbers, mem_memberNumbers] at hn
    obtain ⟨m, hm, hn⟩ := hn
    exact (hkept m hm).1.numbers n hn
  · have hle := memberNesting_le fun m hm => (hkept m hm).2
    rw [nesting]
    omega

end Value

mutual

theorem freeForm_bounded : ∀ {d : Doc} {outer : ℕ} {v : Value}, d.Bounded outer →
    Read.freeForm d = .ok v → v.Within outer
  | .null, _, _, _, h => Except.ok.inj h ▸ Value.within_leaf rfl rfl rfl
  | .bool _, _, _, _, h => Except.ok.inj h ▸ Value.within_leaf rfl rfl rfl
  | .string _, _, _, _, h => Except.ok.inj h ▸ Value.within_leaf rfl rfl rfl
  | .number _, _, _, hd, h => by
    obtain rfl := Except.ok.inj h
    exact ⟨⟨rfl, fun m hm => List.mem_singleton.mp hm ▸ hd⟩, Nat.zero_le _⟩
  | .array docs ending, _, _, hd, h => by
    obtain ⟨items, hitems, h⟩ := bind_eq_ok.mp h
    obtain rfl := Except.ok.inj h
    exact Value.within_array hd.1 (freeFormItems_bounded hd.2 hitems)
  | .object fields ending, _, _, hd, h => by
    obtain ⟨members, hmembers, h⟩ := bind_eq_ok.mp h
    obtain rfl := Except.ok.inj h
    exact Value.within_object hd.1 (freeFormMembers_bounded hd.2 hmembers)
  | .absent, _, _, _, h | .astray, _, _, _, h | .garbled, _, _, _, h | .deep _, _, _, _, h
  | .broken .., _, _, _, h => nomatch h

theorem freeFormItems_bounded : ∀ {docs : List Doc} {ending : Option Fault} {outer : ℕ}
    {items : List Value}, Doc.ItemsBounded outer docs → Read.freeFormItems docs ending = .ok items →
    ∀ v ∈ items, v.Within outer
  | [], none, _, _, _, h => fun _ hv => absurd (Except.ok.inj h ▸ hv) List.not_mem_nil
  | [], some _, _, _, _, h => nomatch h
  | d :: rest, ending, _, _, hd, h => by
    obtain ⟨v, hv, h⟩ := bind_eq_ok.mp h
    obtain ⟨items, hitems, h⟩ := bind_eq_ok.mp h
    obtain rfl := Except.ok.inj h
    exact List.forall_mem_cons.mpr ⟨freeForm_bounded hd.1 hv, freeFormItems_bounded hd.2 hitems⟩

theorem freeFormMembers_bounded : ∀ {fields : List (Doc × Doc)} {ending : Option Fault} {outer : ℕ}
    {members : List (String × Value)}, Doc.FieldsBounded outer fields →
    Read.freeFormMembers fields ending = .ok members → ∀ m ∈ members, m.2.Within outer
  | [], none, _, _, _, h => fun _ hm => absurd (Except.ok.inj h ▸ hm) List.not_mem_nil
  | [], some _, _, _, _, h => nomatch h
  | (name, d) :: rest, ending, _, _, hd, h => by
    obtain ⟨key, hkey, h⟩ := bind_eq_ok.mp h
    obtain ⟨v, hv, h⟩ := bind_eq_ok.mp h
    obtain ⟨members, hmembers, h⟩ := bind_eq_ok.mp h
    obtain rfl := Except.ok.inj h
    exact List.forall_mem_cons.mpr
      ⟨freeForm_bounded hd.1 hv, freeFormMembers_bounded hd.2 hmembers⟩

end

/-! ## Content that is reread -/

namespace Value

/-- Content without floats. -/
def FloatFree (v : Value) : Prop := ∀ n ∈ v.numbers, ∃ i, n = .int i

instance : (n : Number) → Decidable (∃ i, n = .int i)
  | .int i => isTrue ⟨i, rfl⟩
  | .float _ => isFalse nofun

instance (v : Value) : Decidable v.FloatFree :=
  inferInstanceAs (Decidable (∀ n ∈ v.numbers, ∃ i, n = .int i))

theorem reread_int {n : ℤ} (h : -0x8000000000000000 ≤ n ∧ n ≤ 0xffffffffffffffff) :
    (int n).reread = int n :=
  congrArg number (Number.legible_int h).2

theorem reread_of_numbers {v : Value} (h : ∀ n ∈ v.numbers, n.reread = n) : v.reread = v := by
  induction v using Value.induct with
  | null | bool b | string s => rfl
  | number n => exact congrArg number (h n List.mem_cons_self)
  | array items ih =>
    have hitems : items.map reread = items.map id := List.map_congr_left fun v hv =>
      ih v hv fun n hn => h n (mem_itemNumbers.mpr ⟨v, hv, hn⟩)
    rw [reread, itemsReread_eq, hitems, List.map_id]
  | object members ih =>
    have hmembers : Keyed.mapValues reread members = members :=
      Keyed.mapValues_eq_self_iff.mpr fun m hm =>
        ih m hm fun n hn => h n (mem_memberNumbers.mpr ⟨m, hm, hn⟩)
    rw [reread, membersReread_eq, hmembers]

/-- Integers are written exactly. -/
theorem FloatFree.reread {v : Value} (h : v.FloatFree) (hportable : v.Portable) :
    v.reread = v := by
  refine reread_of_numbers fun n hn => ?_
  have hn64 := hportable.numbers n hn
  obtain ⟨i, rfl⟩ := h n hn
  exact (Number.legible_int hn64).2

theorem numbers_reread (v : Value) : v.reread.numbers = v.numbers.map Number.reread := by
  induction v using Value.induct with
  | null | bool b | string s | number n => rfl
  | array items ih =>
    rw [reread, numbers, numbers]
    induction items with
    | nil => rfl
    | cons v rest ihrest =>
      obtain ⟨hv, hrest⟩ := List.forall_mem_cons.mp ih
      rw [itemsReread, itemNumbers, itemNumbers, hv, ihrest hrest, List.map_append]
  | object members ih =>
    rw [reread, numbers, numbers]
    induction members with
    | nil => rfl
    | cons m rest ihrest =>
      obtain ⟨k, v⟩ := m
      obtain ⟨hv, hrest⟩ := List.forall_mem_cons.mp ih
      rw [membersReread, memberNumbers, memberNumbers, hv, ihrest hrest, List.map_append]

theorem sorted_reread (v : Value) : v.reread.sorted = v.sorted.reread := by
  induction v using Value.induct with
  | null | bool b | string s | number n => rfl
  | array items ih =>
    rw [reread, sorted, sorted, reread, itemsReread_eq, sortedItems_eq, sortedItems_eq,
      itemsReread_eq, List.map_map, List.map_map]
    exact congrArg array (List.map_congr_left ih)
  | object members ih =>
    have hmembers : Keyed.mapValues sorted (Keyed.mapValues reread members)
        = Keyed.mapValues reread (Keyed.mapValues sorted members) := Keyed.mapValues_swap ih
    rw [reread, sorted, sorted, reread, membersReread_eq, sortedMembers_eq, sortedMembers_eq,
      membersReread_eq, hmembers, Keyed.ofList_mapValues]

theorem Portable.reread {v : Value} (h : v.Portable) : v.reread.Portable where
  sorted := by rw [sorted_reread, h.sorted]
  numbers := by
    intro n hn
    rw [numbers_reread] at hn
    obtain ⟨m, hm, rfl⟩ := List.mem_map.mp hn
    exact (h.numbers m hm).reread

end Value

end Json
end FleetMesh
