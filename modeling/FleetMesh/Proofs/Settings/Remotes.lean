/-
What the short entries of the remotes mean.

An entry is a host, or a host, a colon and a port, with blanks around it.  It is cut
at its last colon and the part after it is read as a port, so every host with a port
is found, whatever colons it has (`ofShort?_cut`), and a host without one is found if
it has no colon (`ofShort?_word`).

That leaves out an address in brackets that comes without a port: its last colon is
one of its own.  What stands before it is taken for the host, and the port is that of
the machine itself (`shortTarget?_bracketed`).
-/
import FleetMesh.Proofs.Text.Blank
import FleetMesh.Settings.Remotes
import FleetMesh.Tls.Address
import Mathlib.Data.Nat.Digits.Defs

namespace FleetMesh

open Text (Padded Tight isBlank)

/-! ## Numbers -/

namespace Text

/-- A number of some digits, with or without zeros before them. -/
theorem natural?_digits {high n : Nat} (hn : n ≤ high) {s : String} {zeros : Nat}
    (hs : s.toList = List.replicate zeros '0' ++ Nat.toDigits 10 n) :
    natural? high s = some n := by
  have hdigit : ∀ c ∈ s.toList, c.isDigit = true := by
    intro c hc
    rw [hs, List.mem_append] at hc
    rcases hc with hc | hc
    · rw [List.eq_of_mem_replicate hc]
      rfl
    · exact Nat.isDigit_of_mem_toDigits (by decide) (by decide) hc
  have hne : s.toList ≠ [] := by
    rw [hs]
    exact List.append_ne_nil_of_right_ne_nil _ Nat.toDigits_ne_nil
  have hvalue : digits? s.toList = some n := by
    rw [digits?, if_pos ⟨hne, List.all_eq_true.mpr hdigit⟩]
    show some (Nat.ofDigitChars 10 s.toList 0) = some n
    rw [hs, Nat.ofDigitChars_append, Nat.ofDigitChars_replicate_zero, Nat.mul_zero,
      Nat.ofDigitChars_toDigits (by decide) (by decide)]
  have hplain : natural? high s = (digits? s.toList).filter (fun n => n ≤ high) := by
    rw [natural?]
    split
    · rename_i cs hplus
      have hsign : ('+' : Char).isDigit = true := hdigit '+' (hplus ▸ List.mem_cons_self)
      cases hsign
    · rfl
  rw [hplain, hvalue, Option.filter_some, if_pos (decide_eq_true hn)]

theorem natural?_eq_none {high : Nat} {s : String} {c : Char} (hc : c ∈ s.toList)
    (hdigit : c.isDigit = false) (hsign : c ≠ '+') : natural? high s = none := by
  have hnone : ∀ cs : List Char, c ∈ cs → digits? cs = none := by
    intro cs hmem
    refine if_neg fun ⟨_, hall⟩ => ?_
    rw [List.all_eq_true.mp hall c hmem] at hdigit
    cases hdigit
  rw [natural?]
  split
  · rename_i cs hplus
    rw [hplus] at hc
    rw [hnone cs ((List.mem_cons.mp hc).resolve_left hsign), Option.filter_none]
  · rw [hnone _ hc, Option.filter_none]

end Text

namespace Tls.Address

theorem eq_of_cutGap {cs front back : List Char} (h : cutGap cs = some (front, back)) :
    cs = front ++ ':' :: ':' :: back := by
  induction cs using cutGap.induct generalizing front with
  | case1 rest =>
    obtain ⟨rfl, rfl⟩ := Prod.mk.inj (Option.some.inj h)
    rfl
  | case2 c rest hne ih =>
    rw [cutGap] at h
    · obtain ⟨⟨a, b⟩, hcut, hsame⟩ := Option.map_eq_some_iff.mp h
      obtain ⟨rfl, rfl⟩ := Prod.mk.inj hsame
      rw [ih hcut, List.cons_append]
    · exact hne
  | case3 => cases h

theorem length_groups?_single {last : List Char} {groups : List Nat}
    (h : groups? [last] = some groups) : groups.length ≤ 2 := by
  rw [groups?] at h
  split at h
  · obtain rfl := Option.some.inj h
    exact Nat.le_refl 2
  · obtain ⟨g, _, rfl⟩ := Option.map_eq_some_iff.mp h
    exact Nat.le_succ 1

/-- An address of eight groups has a colon. -/
theorem colon_mem_of_ofV6? {cs : List Char} {groups : List Nat} (h : ofV6? cs = some groups) :
    ':' ∈ cs := by
  rw [ofV6?] at h
  split at h
  · apply Classical.byContradiction
    intro hcolon
    have hpieces : pieces ':' cs = [cs] := Text.splitBy_of_forall fun c hc =>
      beq_eq_false_iff_ne.mpr fun he => hcolon (he ▸ hc)
    rw [hpieces] at h
    obtain ⟨found, hfound, h⟩ := Option.bind_eq_some_iff.mp h
    split at h
    · have hle := length_groups?_single hfound
      omega
    · cases h
  · rename_i front back hgap
    rw [eq_of_cutGap hgap]
    simp

end Tls.Address

namespace Settings

/-! ## Hosts and ports -/

/-- A host in one word. -/
def Plain (host : String) : Prop := host ≠ "" ∧ ∀ c ∈ host.toList, isBlank c = false ∧ c ≠ ':'

/-- An address of eight groups in brackets. -/
def Bracketed (host : String) : Prop :=
  ∃ address groups, Tls.Address.ofV6? address = some groups ∧
    host.toList = '[' :: address ++ [']']

/-- A text that writes a port; zeros may lead. -/
def WritesPort (text : String) (n : Nat) : Prop :=
  n ≤ 65535 ∧ ∃ zeros, text.toList = List.replicate zeros '0' ++ (toString n).toList

/-- What the text of an entry says: a host, and the port `own` of the machine itself or
one that is written. -/
inductive Means (own : Nat) : String → String → Nat → Prop
  | host {host : String} (h : Plain host) : Means own host host own
  | hostPort {host text : String} {n : Nat} (h : Plain host ∨ Bracketed host)
    (hn : WritesPort text n) : Means own (host ++ ":" ++ text) host n

/-- The target of a short entry, if it is one. -/
def Remotes.shortTarget? (r : Remotes) (own : Nat) (entry : String) : Option PollTarget :=
  (Remote.ofShort? entry).map (Remote.target r own)

variable {own n : Nat} {entry text host : String} {front back : List Char}

theorem Plain.head (h : Plain host) : ∃ c rest, host.toList = c :: rest ∧ isBlank c = false := by
  obtain ⟨hne, hall⟩ := h
  have hlist : host.toList ≠ [] := fun he => hne (String.toList_eq_nil_iff.mp he)
  obtain ⟨c, rest, hc⟩ := List.exists_cons_of_ne_nil hlist
  exact ⟨c, rest, hc, (hall c (hc ▸ List.mem_cons_self)).1⟩

theorem Plain.tight (h : Plain host) : Tight host where
  head := fun c hc => (h.2 c (List.mem_of_head? hc)).1
  last := fun c hc => (h.2 c (List.mem_of_getLast? hc)).1

theorem Bracketed.head (h : Bracketed host) :
    ∃ c rest, host.toList = c :: rest ∧ isBlank c = false := by
  obtain ⟨address, _, _, hhost⟩ := h
  exact ⟨'[', address ++ [']'], hhost, rfl⟩

theorem Bracketed.tight (h : Bracketed host) : Tight host := by
  obtain ⟨address, _, _, hhost⟩ := h
  constructor
  · intro c hc
    rw [hhost] at hc
    exact Option.some.inj hc ▸ rfl
  · intro c hc
    rw [hhost, List.getLast?_concat] at hc
    exact Option.some.inj hc ▸ rfl

theorem WritesPort.eq (h : WritesPort text n) : ∃ zeros,
    text.toList = List.replicate zeros '0' ++ Nat.toDigits 10 n := by
  obtain ⟨_, zeros, htext⟩ := h
  exact ⟨zeros, by rwa [Nat.toString_eq_repr, Nat.toList_repr] at htext⟩

theorem WritesPort.natural? (h : WritesPort text n) :
    Text.natural? Remote.maxPort text = some n := by
  obtain ⟨zeros, htext⟩ := h.eq
  exact Text.natural?_digits h.1 htext

theorem WritesPort.isDigit (h : WritesPort text n) : ∀ c ∈ text.toList, c.isDigit = true := by
  obtain ⟨zeros, htext⟩ := h.eq
  intro c hc
  rw [htext, List.mem_append] at hc
  rcases hc with hc | hc
  · rw [List.eq_of_mem_replicate hc]
    rfl
  · exact Nat.isDigit_of_mem_toDigits (by decide) (by decide) hc

theorem isBlank_of_isDigit {c : Char} (h : c.isDigit = true) : isBlank c = false := by
  have hrange : 48 ≤ c.toNat ∧ c.toNat ≤ 57 := by
    simpa [Char.isDigit, UInt32.le_iff_toNat_le] using h
  simp only [isBlank, Bool.or_eq_false_iff, Bool.and_eq_false_iff, decide_eq_false_iff_not,
    beq_eq_false_iff_ne]
  omega

theorem WritesPort.last (h : WritesPort text n) :
    ∃ front c, text.toList = front ++ [c] ∧ isBlank c = false := by
  obtain ⟨zeros, htext⟩ := h.eq
  have hne : text.toList ≠ [] := by
    rw [htext]
    exact List.append_ne_nil_of_right_ne_nil _ Nat.toDigits_ne_nil
  obtain ⟨front, c, hc⟩ := (List.eq_nil_or_concat text.toList).resolve_left hne
  rw [List.concat_eq_append] at hc
  refine ⟨front, c, hc, isBlank_of_isDigit (h.isDigit c ?_)⟩
  rw [hc]
  exact List.mem_concat_self

/-! ## Entries -/

namespace Remote

theorem cutLast_append (h : ':' ∉ back) : cutLast (front ++ ':' :: back) = some (front, back) := by
  have hmark : ∀ c ∈ back.reverse, (c == ':') = false := by
    intro c hc
    rw [beq_eq_false_iff_ne]
    rintro rfl
    exact h (List.mem_reverse.mp hc)
  have hreverse : (front ++ ':' :: back).reverse = back.reverse ++ ':' :: front.reverse := by simp
  rw [cutLast, hreverse, Text.cutBy_append hmark rfl]
  simp

theorem cutLast_eq_none {cs : List Char} (h : ':' ∉ cs) : cutLast cs = none := by
  rw [cutLast, Option.map_eq_none_iff, Option.eq_none_iff_forall_ne_some]
  rintro ⟨before, rest⟩ hcut
  obtain ⟨mark, hcs, hmark, _⟩ := Text.cutBy_eq_some hcut
  have hmem : mark ∈ cs.reverse := by
    rw [hcs]
    simp
  exact h (beq_iff_eq.mp hmark ▸ List.mem_reverse.mp hmem)

theorem ofShort?_eq_none_iff : ofShort? entry = none ↔ ∀ c ∈ entry.toList, isBlank c = true := by
  rw [← Text.trimBy_eq_nil_iff, ofShort?]
  constructor
  · intro h
    split at h
    · assumption
    · split at h <;> cases h
  · intro h
    rw [if_pos h]

/-- An entry without a colon is a host. -/
theorem ofShort?_word (hpad : Padded entry host) (htight : Tight host) (hne : host.toList ≠ [])
    (hcolon : ':' ∉ host.toList) : ofShort? entry = some ⟨host, none, 0, none, none⟩ := by
  rw [ofShort?, hpad.trimBy htight, if_neg hne, cutLast_eq_none hcolon]
  show some _ = _
  rw [String.ofList_toList]

/-- Any other is cut at its last colon. -/
theorem ofShort?_cut (hpad : Padded entry text) (htight : Tight text)
    (htext : text.toList = front ++ ':' :: back) (hback : ':' ∉ back) :
    ofShort? entry = some ⟨String.ofList front, Text.natural? maxPort (String.ofList back),
      0, none, none⟩ := by
  rw [ofShort?, hpad.trimBy htight, htext, if_neg (by simp), cutLast_append hback]

end Remote

namespace Remotes

variable {r : Remotes}

theorem shortTarget?_of_means (hmeans : Means own text host n) (hpad : Padded entry text) :
    r.shortTarget? own entry = some ⟨host, n, 0, max r.interval 1, max r.tries 1⟩ := by
  rw [shortTarget?]
  cases hmeans with
  | host h =>
    obtain ⟨c, rest, hc, _⟩ := h.head
    have hne : text.toList ≠ [] := by simp [hc]
    rw [Remote.ofShort?_word hpad h.tight hne fun hcolon => (h.2 ':' hcolon).2 rfl]
    rfl
  | @hostPort _ port _ h hn =>
    have htight : Tight (host ++ ":" ++ port) :=
      Text.tight_append (h.elim Plain.head Bracketed.head) hn.last ":"
    have htext : (host ++ ":" ++ port).toList = host.toList ++ ':' :: port.toList := by
      simp [String.toList_append]
    have hcolon : ':' ∉ port.toList := fun hc => nomatch hn.isDigit ':' hc
    rw [Remote.ofShort?_cut hpad htight htext hcolon, String.ofList_toList, String.ofList_toList,
      hn.natural?]
    rfl

/-- Of an address in brackets that comes alone, what is before its last colon is taken. -/
theorem shortTarget?_bracketed (h : Bracketed host) (hpad : Padded entry host) :
    ∃ front back, host.toList = front ++ ':' :: back ∧ ':' ∉ back ∧
      r.shortTarget? own entry =
        some ⟨String.ofList front, own, 0, max r.interval 1, max r.tries 1⟩ := by
  obtain ⟨address, groups, haddress, hhost⟩ := h
  obtain ⟨front, back, hsplit, hback⟩ :=
    List.eq_append_cons_of_mem (List.mem_reverse.mpr (Tls.Address.colon_mem_of_ofV6? haddress))
  have hcut : host.toList = ('[' :: back.reverse) ++ ':' :: (front.reverse ++ [']']) := by
    have haddress : address = back.reverse ++ ':' :: front.reverse := by
      rw [← List.reverse_reverse address, hsplit]
      simp
    rw [hhost, haddress]
    simp
  have hcolon : ':' ∉ front.reverse ++ [']'] := by simpa using hback
  -- the closing bracket is behind the last colon, so no port is read there
  have hnone : Text.natural? Remote.maxPort (String.ofList (front.reverse ++ [']'])) = none :=
    Text.natural?_eq_none (c := ']') (by simp) rfl (by decide)
  refine ⟨_, _, hcut, hcolon, ?_⟩
  rw [shortTarget?, Remote.ofShort?_cut hpad (Bracketed.tight ⟨_, _, haddress, hhost⟩) hcut hcolon,
    hnone]
  rfl

theorem one_le_of_mem_targets {t : PollTarget} (h : t ∈ r.targets own) :
    1 ≤ t.interval ∧ 1 ≤ t.tries := by
  obtain ⟨remote, _, rfl⟩ := List.mem_map.mp h
  exact ⟨Nat.le_max_right _ _, Nat.le_max_right _ _⟩

/-- The targets are those of the short entries that are not blank, and then those of the
long ones, and each is asked at least once.  A short entry means what it says, unless it
is an address in brackets without a port. -/
theorem targets_meant (r : Remotes) (own : Nat) :
    r.targets own = r.short.filterMap (r.shortTarget? own) ++ r.long.map (Remote.target r own) ∧
      (∀ entry, r.shortTarget? own entry = none ↔ ∀ c ∈ entry.toList, isBlank c = true) ∧
      (∀ entry text host n, Means own text host n → Padded entry text →
        r.shortTarget? own entry = some ⟨host, n, 0, max r.interval 1, max r.tries 1⟩) ∧
      (∀ entry host, Bracketed host → Padded entry host →
        ∃ front back, host.toList = front ++ ':' :: back ∧ ':' ∉ back ∧
          r.shortTarget? own entry =
            some ⟨String.ofList front, own, 0, max r.interval 1, max r.tries 1⟩) ∧
      ∀ t ∈ r.targets own, 1 ≤ t.interval ∧ 1 ≤ t.tries := by
  refine ⟨?_, fun entry => ?_, fun _ _ _ _ => shortTarget?_of_means,
    fun _ _ => shortTarget?_bracketed, fun _ => one_le_of_mem_targets⟩
  · rw [targets, List.map_append, List.map_filterMap]
    rfl
  · rw [shortTarget?, Option.map_eq_none_iff, Remote.ofShort?_eq_none_iff]

/-- Two machines by name, one of them on a port with a zero before it, one by its address,
an entry that is blank, and a machine with an entry of its own that is asked without end. -/
def mixedRemotes : Remotes :=
  ⟨0, 3, ["db-1", " \t", "web-1:0080\n", " [fe80::1]:4100"], [⟨"edge", none, 1, some 30, some 0⟩]⟩

theorem mixedRemotes_meant :
    Means 4000 "[fe80::1]:4100" "[fe80::1]" 4100 ∧ Padded " [fe80::1]:4100" "[fe80::1]:4100" ∧
      mixedRemotes.shortTarget? 4000 " [fe80::1]:4100" = some ⟨"[fe80::1]", 4100, 0, 1, 3⟩ ∧
      mixedRemotes.targets 4000 = [⟨"db-1", 4000, 0, 1, 3⟩, ⟨"web-1", 80, 0, 1, 3⟩,
        ⟨"[fe80::1]", 4100, 0, 1, 3⟩, ⟨"edge", 4000, 1, 30, 1⟩] := by
  have hhost : Bracketed "[fe80::1]" :=
    ⟨"fe80::1".toList, [0xfe80, 0, 0, 0, 0, 0, 0, 1], by decide, rfl⟩
  have hport : WritesPort "4100" 4100 := ⟨by decide, 0, by decide⟩
  have hmeans : Means 4000 "[fe80::1]:4100" "[fe80::1]" 4100 := .hostPort (.inr hhost) hport
  have hpad : Padded " [fe80::1]:4100" "[fe80::1]:4100" :=
    ⟨[' '], [], by decide, List.forall_mem_singleton.mpr rfl, List.forall_mem_nil _⟩
  obtain ⟨_, _, hmeant, _⟩ := targets_meant mixedRemotes 4000
  exact ⟨hmeans, hpad, hmeant _ _ _ _ hmeans hpad, by decide⟩

/-- An address in brackets is not found without a port. -/
theorem loopback_missed :
    Bracketed "[::1]" ∧
      Remotes.targets { default with short := ["[::1]"] } 4000 = [⟨"[:", 4000, 0, 10, 3⟩] ∧
      ¬ ∀ (r : Remotes) (own : Nat) (entry host : String), Bracketed host → Padded entry host →
        r.shortTarget? own entry = some ⟨host, own, 0, max r.interval 1, max r.tries 1⟩ := by
  have hhost : Bracketed "[::1]" := ⟨"::1".toList, [0, 0, 0, 0, 0, 0, 0, 1], by decide, rfl⟩
  have hpad : Padded "[::1]" "[::1]" :=
    ⟨[], [], by decide, List.forall_mem_nil _, List.forall_mem_nil _⟩
  refine ⟨hhost, by decide, fun h => ?_⟩
  have hmissed := h default 4000 "[::1]" "[::1]" hhost hpad
  revert hmissed
  decide

end Remotes
end Settings
end FleetMesh
