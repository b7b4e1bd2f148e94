/-
Cutting and trimming texts.

Lines that are written one after another, each with its end, are cut into the same
lines (`splitBy_lines`), and the pieces of any text have no mark in them
(`mem_splitBy`).  Trimming may begin at either end (`trimBy_eq`), and it leaves a text
as it is just if no blank is at its ends (`trim_eq_self_iff`).
-/
import FleetMesh.Text.Blank
import Mathlib.Data.List.DropRight

namespace FleetMesh
namespace Text

variable {α : Type} {p : α → Bool} {cs : List α}

/-! ## Lines -/

theorem splitBy_ne_nil (p : α → Bool) (cs : List α) : splitBy p cs ≠ [] := by
  cases cs with
  | nil => exact List.cons_ne_nil _ _
  | cons c cs =>
    rw [splitBy]
    split
    · exact List.cons_ne_nil _ _
    · split <;> exact List.cons_ne_nil _ _

theorem splitBy_cons_of_neg {c : α} (h : p c = false) :
    ∃ piece pieces, splitBy p cs = piece :: pieces ∧
      splitBy p (c :: cs) = (c :: piece) :: pieces := by
  rw [splitBy, h, if_neg Bool.false_ne_true]
  cases hcs : splitBy p cs with
  | nil => exact absurd hcs (splitBy_ne_nil p cs)
  | cons piece pieces => exact ⟨piece, pieces, rfl, rfl⟩

/-- Without a mark there is one piece. -/
theorem splitBy_of_forall (h : ∀ c ∈ cs, p c = false) : splitBy p cs = [cs] := by
  induction cs with
  | nil => rfl
  | cons c rest ih =>
    obtain ⟨hc, hrest⟩ := List.forall_mem_cons.mp h
    rw [splitBy, hc, if_neg Bool.false_ne_true, ih hrest]

/-- The text up to the first mark is the first piece. -/
theorem splitBy_append {line : List α} (h : ∀ c ∈ line, p c = false) {mark : α}
    (hmark : p mark = true) (rest : List α) :
    splitBy p (line ++ mark :: rest) = line :: splitBy p rest := by
  induction line with
  | nil => exact if_pos hmark
  | cons c line ih =>
    obtain ⟨piece, pieces, hpieces, hcons⟩ :=
      @splitBy_cons_of_neg α p (line ++ mark :: rest) c (h c List.mem_cons_self)
    rw [ih fun d hd => h d (List.mem_cons_of_mem _ hd)] at hpieces
    obtain ⟨rfl, rfl⟩ := List.cons.inj hpieces
    exact hcons

theorem splitBy_lines {lines : List (List α)} (h : ∀ line ∈ lines, ∀ c ∈ line, p c = false)
    {mark : α} (hmark : p mark = true) :
    splitBy p (lines.flatMap (fun line => line ++ [mark])) = lines ++ [[]] := by
  induction lines with
  | nil => rfl
  | cons line lines ih =>
    rw [List.flatMap_cons, List.append_assoc, List.singleton_append,
      splitBy_append (h line List.mem_cons_self) hmark,
      ih fun l hl => h l (List.mem_cons_of_mem _ hl), List.cons_append]

theorem mem_splitBy {piece : List α} (h : piece ∈ splitBy p cs) : ∀ c ∈ piece, p c = false := by
  induction cs generalizing piece with
  | nil =>
    obtain rfl := List.mem_singleton.mp h
    exact fun c hc => absurd hc List.not_mem_nil
  | cons c cs ih =>
    cases hc : p c with
    | true =>
      rw [splitBy, if_pos hc] at h
      rcases List.mem_cons.mp h with rfl | h
      · exact fun d hd => absurd hd List.not_mem_nil
      · exact ih h
    | false =>
      obtain ⟨first, pieces, hpieces, hcons⟩ := @splitBy_cons_of_neg α p cs c hc
      rw [hpieces] at ih
      rw [hcons] at h
      rcases List.mem_cons.mp h with rfl | h
      · intro d hd
        rcases List.mem_cons.mp hd with rfl | hd
        · exact hc
        · exact ih List.mem_cons_self d hd
      · exact ih (List.mem_cons_of_mem _ h)

/-! ## The first mark -/

theorem cutBy_append {before : List Char} {p : Char → Bool} (h : ∀ c ∈ before, p c = false)
    {mark : Char} (hmark : p mark = true) (rest : List Char) :
    cutBy p (before ++ mark :: rest) = some (before, rest) := by
  induction before with
  | nil => exact if_pos hmark
  | cons c before ih =>
    rw [List.cons_append, cutBy, h c List.mem_cons_self, if_neg Bool.false_ne_true,
      ih fun d hd => h d (List.mem_cons_of_mem _ hd)]
    rfl

theorem cutBy_eq_some {p : Char → Bool} {cs before rest : List Char}
    (h : cutBy p cs = some (before, rest)) :
    ∃ mark, cs = before ++ mark :: rest ∧ p mark = true ∧ ∀ c ∈ before, p c = false := by
  induction cs generalizing before with
  | nil => cases h
  | cons c cs ih =>
    cases hc : p c with
    | true =>
      rw [cutBy, if_pos hc] at h
      obtain ⟨rfl, rfl⟩ := Prod.mk.inj (Option.some.inj h)
      exact ⟨c, rfl, hc, fun d hd => absurd hd List.not_mem_nil⟩
    | false =>
      rw [cutBy, hc, if_neg Bool.false_ne_true] at h
      obtain ⟨⟨a, b⟩, hcut, hsame⟩ := Option.map_eq_some_iff.mp h
      obtain ⟨rfl, rfl⟩ := Prod.mk.inj hsame
      obtain ⟨mark, rfl, hmark, hbefore⟩ := ih hcut
      refine ⟨mark, rfl, hmark, fun d hd => ?_⟩
      rcases List.mem_cons.mp hd with rfl | hd
      · exact hc
      · exact hbefore d hd

/-! ## Trimming -/

theorem rdropWhile_append {front : List α} (h : ∃ c ∈ cs, p c = false) :
    (front ++ cs).rdropWhile p = front ++ cs.rdropWhile p := by
  have hne : (cs.reverse.dropWhile p).isEmpty = false := by
    rw [Bool.eq_false_iff]
    intro hempty
    obtain ⟨c, hc, hp⟩ := h
    have hall := List.rdropWhile_eq_nil_iff.mp (congrArg List.reverse (List.isEmpty_iff.mp hempty))
    rw [hall c hc] at hp
    cases hp
  rw [List.rdropWhile, List.reverse_append, List.dropWhile_append, hne, if_neg Bool.false_ne_true,
    List.reverse_append, List.reverse_reverse]
  rfl

section
variable {p : Char → Bool} {cs : List Char}

/-- The two ends may be trimmed in either order. -/
theorem trimBy_eq (p : Char → Bool) (cs : List Char) :
    trimBy p cs = (cs.rdropWhile p).dropWhile p := by
  show (cs.dropWhile p).rdropWhile p = _
  induction cs with
  | nil => rfl
  | cons c cs ih =>
    cases hc : p c with
    | true =>
      rw [List.dropWhile_cons, if_pos hc, ih]
      by_cases hall : ∀ d ∈ cs, p d = true
      · have hcs : cs.rdropWhile p = [] := List.rdropWhile_eq_nil_iff.mpr hall
        have hccs : (c :: cs).rdropWhile p = [] :=
          List.rdropWhile_eq_nil_iff.mpr (List.forall_mem_cons.mpr ⟨hc, hall⟩)
        rw [hcs, hccs]
      · have hsome : ∃ d ∈ cs, p d = false := by simpa using hall
        have hcons : (c :: cs).rdropWhile p = c :: cs.rdropWhile p :=
          @rdropWhile_append _ p cs [c] hsome
        rw [hcons, List.dropWhile_cons, if_pos hc]
    | false =>
      rw [List.dropWhile_cons, hc, if_neg Bool.false_ne_true]
      obtain ⟨rest, hrest⟩ : (c :: cs).rdropWhile p <+: c :: cs := List.rdropWhile_prefix p _
      cases hd : (c :: cs).rdropWhile p with
      | nil => rfl
      | cons d ds =>
        rw [hd] at hrest
        obtain rfl := (List.cons.inj hrest).1
        rw [List.dropWhile_cons, hc, if_neg Bool.false_ne_true]

theorem trimBy_rdropWhile (p : Char → Bool) (cs : List Char) :
    trimBy p (cs.rdropWhile p) = trimBy p cs := by
  rw [trimBy_eq, trimBy_eq, List.rdropWhile_idempotent]

theorem trimBy_eq_nil_iff : trimBy p cs = [] ↔ ∀ c ∈ cs, p c = true := by
  show (cs.dropWhile p).rdropWhile p = [] ↔ _
  rw [← List.dropWhile_eq_nil_iff, List.rdropWhile_eq_nil_iff]
  constructor
  · intro h
    have hagain := List.dropWhile_eq_nil_iff.mpr h
    rwa [List.dropWhile_idempotent] at hagain
  · intro h c hc
    rw [h] at hc
    exact absurd hc List.not_mem_nil

theorem mem_of_mem_trimBy {c : Char} (h : c ∈ trimBy p cs) : c ∈ cs :=
  (List.dropWhile_suffix p).subset ((List.rdropWhile_prefix p _).subset h)

theorem head_trimBy {c : Char} {rest : List Char} (h : trimBy p cs = c :: rest) : p c = false := by
  rw [trimBy_eq] at h
  have hagain := congrArg (List.dropWhile p) h
  rw [List.dropWhile_idempotent, h, List.dropWhile_cons] at hagain
  cases hc : p c with
  | false => rfl
  | true =>
    rw [hc, if_pos rfl] at hagain
    have hlen := (List.dropWhile_suffix p).length_le.trans_lt (Nat.lt_succ_self rest.length)
    rw [← hagain] at hlen
    exact absurd hlen (Nat.lt_irrefl _)

theorem last_trimBy {c : Char} (h : (trimBy p cs).getLast? = some c) : p c = false := by
  obtain ⟨hne, rfl⟩ := List.mem_getLast?_eq_getLast h
  exact Bool.eq_false_iff.mpr (List.rdropWhile_last_not p (cs.dropWhile p) hne)

theorem trimBy_eq_self (hhead : ∀ c ∈ cs.head?, p c = false)
    (hlast : ∀ c ∈ cs.getLast?, p c = false) : trimBy p cs = cs := by
  have hfront : cs.dropWhile p = cs := by
    cases cs with
    | nil => rfl
    | cons c cs => rw [List.dropWhile_cons, hhead c rfl, if_neg Bool.false_ne_true]
  show (cs.dropWhile p).rdropWhile p = cs
  rw [hfront, List.rdropWhile_eq_self_iff]
  intro hne
  rw [hlast _ (List.getLast?_eq_some_getLast hne)]
  exact Bool.false_ne_true

/-- What is taken away stood at the two ends. -/
theorem exists_append_trimBy (p : Char → Bool) (cs : List Char) :
    ∃ front back, cs = front ++ trimBy p cs ++ back ∧
      (∀ c ∈ front, p c = true) ∧ ∀ c ∈ back, p c = true := by
  refine ⟨cs.takeWhile p, (cs.dropWhile p).rtakeWhile p, ?_,
    fun c hc => List.mem_takeWhile_imp hc, fun c hc => List.mem_rtakeWhile_imp hc⟩
  show cs = cs.takeWhile p ++ (cs.dropWhile p).rdropWhile p ++ (cs.dropWhile p).rtakeWhile p
  rw [List.append_assoc, List.rdropWhile_append_rtakeWhile, List.takeWhile_append_dropWhile]

theorem trimBy_append {front back : List Char} (hfront : ∀ c ∈ front, p c = true)
    (hback : ∀ c ∈ back, p c = true) : trimBy p (front ++ cs ++ back) = trimBy p cs := by
  have hdrop : (front ++ cs ++ back).dropWhile p = (cs ++ back).dropWhile p := by
    rw [List.append_assoc, List.dropWhile_append_of_pos hfront]
  have hrdrop : (cs ++ back).rdropWhile p = cs.rdropWhile p := by
    rw [List.rdropWhile, List.reverse_append,
      List.dropWhile_append_of_pos fun c hc => hback c (List.mem_reverse.mp hc), List.rdropWhile]
  calc trimBy p (front ++ cs ++ back)
      = trimBy p (cs ++ back) := by rw [trimBy, hdrop, trimBy]
    _ = trimBy p cs := by rw [← trimBy_rdropWhile, hrdrop, trimBy_rdropWhile]

/-- A word at the start is left as it is by trimming what follows it. -/
theorem trimBy_word {word rest : List Char} (hword : word ≠ []) (hsolid : ∀ c ∈ word, p c = false)
    {mark : Char} (hrest : ∃ c ∈ rest, p c = false) :
    trimBy p (word ++ mark :: rest) = word ++ mark :: rest.rdropWhile p := by
  have happend : word ++ mark :: rest = (word ++ [mark]) ++ rest := by simp
  cases word with
  | nil => exact absurd rfl hword
  | cons c word =>
    rw [trimBy_eq, happend, rdropWhile_append hrest, List.cons_append, List.cons_append,
      List.dropWhile_cons, hsolid c List.mem_cons_self, if_neg Bool.false_ne_true]
    simp

end

/-- A text that has no blank at its ends. -/
structure Tight (s : String) : Prop where
  head : ∀ c ∈ s.toList.head?, isBlank c = false
  last : ∀ c ∈ s.toList.getLast?, isBlank c = false

/-- The second text is the first one without the blanks at its ends. -/
structure Trimmed (s t : String) : Prop where
  around : ∃ front back, s.toList = front ++ t.toList ++ back ∧
    (∀ c ∈ front, isBlank c = true) ∧ ∀ c ∈ back, isBlank c = true
  tight : Tight t

/-- The first text is the second one with blanks before and after it. -/
def Padded (s t : String) : Prop :=
  ∃ front back, s.toList = front ++ t.toList ++ back ∧
    (∀ c ∈ front, isBlank c = true) ∧ ∀ c ∈ back, isBlank c = true

/-- Trimming takes away what a tight text was padded with. -/
theorem Padded.trimBy {s t : String} (h : Padded s t) (ht : Tight t) :
    Text.trimBy isBlank s.toList = t.toList := by
  obtain ⟨front, back, hs, hfront, hback⟩ := h
  rw [hs, trimBy_append hfront hback, trimBy_eq_self ht.head ht.last]

theorem tight_append {s t : String} (hs : ∃ c rest, s.toList = c :: rest ∧ isBlank c = false)
    (ht : ∃ front c, t.toList = front ++ [c] ∧ isBlank c = false) (middle : String) :
    Tight (s ++ middle ++ t) := by
  obtain ⟨c, rest, hc, hcblank⟩ := hs
  obtain ⟨front, d, hd, hdblank⟩ := ht
  constructor
  · intro x hx
    rw [String.toList_append, String.toList_append, hc] at hx
    exact Option.some.inj hx ▸ hcblank
  · intro x hx
    rw [String.toList_append, hd, ← List.append_assoc, List.getLast?_concat] at hx
    exact Option.some.inj hx ▸ hdblank

theorem tight_trim (s : String) : Tight (trim s) := by
  constructor
  · intro c hc
    rw [trim, String.toList_ofList] at hc
    obtain ⟨rest, hrest⟩ := List.head?_eq_some_iff.mp hc
    exact head_trimBy hrest
  · intro c hc
    rw [trim, String.toList_ofList] at hc
    exact last_trimBy hc

theorem trimmed_trim (s : String) : Trimmed s (trim s) := by
  refine ⟨?_, tight_trim s⟩
  rw [trim, String.toList_ofList]
  exact exists_append_trimBy isBlank s.toList

theorem trim_eq_self_iff {s : String} : trim s = s ↔ Tight s := by
  constructor
  · intro h
    exact h ▸ tight_trim s
  · rintro ⟨hhead, hlast⟩
    rw [trim, trimBy_eq_self hhead hlast, String.ofList_toList]

end Text
end FleetMesh
