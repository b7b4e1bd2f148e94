/-
The file of allowed machines, written and read back.

An entry is `Plain` if it can be told from its line: the identifier is a word, and
the hostname says something and does not go on to another line.  What a machine may
register under is plain (`plain_of_valid`), and so is what is read from any text
(`plain_of_mem_parse`).  Plain entries that are written are read back under the same
identifiers, with the hostnames trimmed (`parse_render`).  What comes back is therefore
what was written just if no hostname has a blank at its ends
(`parse_render_of_checked`).
-/
import FleetMesh.Proofs.Keyed
import FleetMesh.Proofs.Text.Blank
import FleetMesh.Proofs.Text.Glyph
import FleetMesh.Push.Message
import FleetMesh.Push.Roster

namespace FleetMesh
namespace Push
namespace AllowedList

open Text (isBlank trimBy)

structure Plain (entry : String × String) : Prop where
  named : entry.1.toList ≠ []
  solid : ∀ c ∈ entry.1.toList, isBlank c = false
  shown : ∃ c ∈ entry.2.toList, isBlank c = false
  oneLine : ∀ c ∈ entry.2.toList, (c == '\n') = false

/-- The line of an entry without its end. -/
def lineOf (entry : String × String) : List Char := entry.1.toList ++ ' ' :: entry.2.toList

variable {entry : String × String}

/-! ## Entries that are plain -/

theorem plain_of_valid {uuid hostname : String} (hu : isValidUuid uuid = true)
    (hh : isValidHostname hostname = true) : Plain (uuid, hostname) := by
  simp only [isValidUuid, Bool.and_eq_true, Bool.not_eq_true', List.any_eq_false,
    decide_eq_true_eq, Bool.not_eq_true] at hu
  simp only [isValidHostname, Bool.and_eq_true, Bool.not_eq_true', List.any_eq_false,
    List.all_eq_false, Bool.not_eq_true] at hh
  obtain ⟨⟨hne, _⟩, hsolid⟩ := hu
  obtain ⟨hshown, hcontrol⟩ := hh
  refine ⟨fun hnil => hne (String.toList_eq_nil_iff.mp hnil), hsolid, hshown, fun c hc => ?_⟩
  rw [beq_eq_false_iff_ne]
  rintro rfl
  exact absurd (hcontrol '\n' hc) (by decide)

theorem plain_of_ofLine? {line : List Char} (hline : ∀ c ∈ line, (c == '\n') = false)
    (h : ofLine? line = some entry) : Plain entry := by
  rw [ofLine?, Option.bind_eq_bind, Option.bind_eq_some_iff] at h
  obtain ⟨⟨word, rest⟩, hcut, h⟩ := h
  obtain ⟨mark, htrim, hmark, hword⟩ := Text.cutBy_eq_some hcut
  dsimp only at h
  split at h
  · cases h
  · rename_i hshown
    obtain rfl := Option.some.inj h
    obtain ⟨c, tail, hc⟩ := List.exists_cons_of_ne_nil hshown
    refine ⟨fun hnil => ?_, fun d hd => ?_, ⟨c, ?_, Text.head_trimBy hc⟩, fun d hd => ?_⟩
    · -- a trimmed line does not begin with a blank
      rw [String.toList_ofList] at hnil
      rw [hnil, List.nil_append] at htrim
      exact nomatch hmark.symm.trans (Text.head_trimBy htrim)
    · exact hword d (by rwa [String.toList_ofList] at hd)
    · rw [String.toList_ofList, hc]
      exact List.mem_cons_self
    · rw [String.toList_ofList] at hd
      have hmem : d ∈ trimBy isBlank line := by
        rw [htrim]
        exact List.mem_append_right _ (List.mem_cons_of_mem _ (Text.mem_of_mem_trimBy hd))
      exact hline d (Text.mem_of_mem_trimBy hmem)

/-- Every line of a text that is read tells a plain entry. -/
theorem plain_of_mem_parse {text : String} (h : entry ∈ parse text) : Plain entry := by
  obtain ⟨line, hline, hentry⟩ := List.mem_filterMap.mp (Keyed.mem_ofList h)
  exact plain_of_ofLine? (Text.mem_splitBy hline) hentry

/-! ## Writing and reading -/

theorem ofLine?_lineOf (h : Plain entry) :
    ofLine? (lineOf entry) = some (entry.1, Text.trim entry.2) := by
  have hcut : Text.cutBy isBlank (trimBy isBlank (lineOf entry)) =
      some (entry.1.toList, entry.2.toList.rdropWhile isBlank) := by
    rw [lineOf, Text.trimBy_word h.named h.solid h.shown, Text.cutBy_append h.solid rfl]
  have hshown : trimBy isBlank entry.2.toList ≠ [] := by
    intro hnil
    obtain ⟨c, hc, hsolid⟩ := h.shown
    exact nomatch hsolid.symm.trans (Text.trimBy_eq_nil_iff.mp hnil c hc)
  rw [ofLine?, hcut]
  show (if trimBy isBlank (entry.2.toList.rdropWhile isBlank) = [] then none else _) = _
  rw [Text.trimBy_rdropWhile, if_neg hshown, String.ofList_toList]
  rfl

theorem Plain.oneLine_lineOf (h : Plain entry) : ∀ c ∈ lineOf entry, (c == '\n') = false := by
  intro c hc
  rcases List.mem_append.mp hc with hc | hc
  · rw [beq_eq_false_iff_ne]
    rintro rfl
    exact nomatch (h.solid '\n' hc).symm.trans (rfl : isBlank '\n' = true)
  · rcases List.mem_cons.mp hc with rfl | hc
    · rfl
    · exact h.oneLine c hc

theorem render_toList (allowed : List (String × String)) :
    (render allowed).toList = (allowed.map lineOf).flatMap (fun line => line ++ ['\n']) := by
  rw [render, String.toList_ofList, List.flatMap_map]
  refine List.flatMap_congr fun entry _ => ?_
  simp [lineChars, lineOf]

/-- The list of plain entries is read back under the same identifiers. -/
theorem parse_render {allowed : List (String × String)} (hord : Keyed.Ordered allowed)
    (h : ∀ entry ∈ allowed, Plain entry) :
    parse (render allowed) = Keyed.mapValues Text.trim allowed := by
  have hlines : ∀ line ∈ allowed.map lineOf, ∀ c ∈ line, (c == '\n') = false := by
    intro line hline c hc
    obtain ⟨entry, he, rfl⟩ := List.mem_map.mp hline
    exact (h entry he).oneLine_lineOf c hc
  have hread : (allowed.map lineOf).filterMap ofLine? = Keyed.mapValues Text.trim allowed := by
    rw [List.filterMap_map, Keyed.mapValues, ← List.filterMap_eq_map]
    exact List.filterMap_congr fun entry he => ofLine?_lineOf (h entry he)
  have hempty : ofLine? [] = none := rfl
  have hmapped : Keyed.Ordered (Keyed.mapValues Text.trim allowed) :=
    Keyed.ordered_mapValues.mpr hord
  rw [parse, render_toList, Text.splitBy_lines hlines rfl, List.filterMap_append, hread,
    List.filterMap_cons, hempty, List.filterMap_nil, List.append_nil,
    Keyed.ofList_of_ordered hmapped]

/-- Machines that may register are read back under the same identifiers, each hostname
without the blanks at its ends.  So the list loses nothing just if no hostname has a
blank there. -/
theorem parse_render_of_checked {allowed : List (String × String)}
    (hord : Keyed.Ordered allowed)
    (h : ∀ entry ∈ allowed, checkUuid entry.1 = .ok () ∧ checkHostname entry.2 = .ok ()) :
    Keyed.keys (parse (render allowed)) = Keyed.keys allowed ∧
      (∀ uuid hostname, Keyed.find? uuid allowed = some hostname →
        ∃ kept, Keyed.find? uuid (parse (render allowed)) = some kept ∧
          Text.Trimmed hostname kept) ∧
      (parse (render allowed) = allowed ↔ ∀ entry ∈ allowed, Text.Tight entry.2) := by
  have hplain : ∀ entry ∈ allowed, Plain entry := fun entry he =>
    plain_of_valid (checkUuid_eq_ok.mp (h entry he).1) (checkHostname_eq_ok.mp (h entry he).2)
  rw [parse_render hord hplain]
  refine ⟨Keyed.keys_mapValues Text.trim allowed, fun uuid hostname hfind => ?_, ?_⟩
  · refine ⟨Text.trim hostname, ?_, Text.trimmed_trim hostname⟩
    rw [Keyed.find?_mapValues, hfind]
    rfl
  · rw [Keyed.mapValues_eq_self_iff]
    exact forall₂_congr fun entry _ => Text.trim_eq_self_iff

/-- Two machines, the one with blanks within its hostname, the other with one at the end. -/
def spacedList : List (String × String) := [("u-1", "db\u20281  x"), ("u-2", "web-2\u00a0")]

theorem spacedList_parse_render :
    Keyed.Ordered spacedList ∧
      (∀ entry ∈ spacedList, checkUuid entry.1 = .ok () ∧ checkHostname entry.2 = .ok ()) ∧
      Keyed.keys (parse (render spacedList)) = Keyed.keys spacedList ∧
      (∀ uuid hostname, Keyed.find? uuid spacedList = some hostname →
        ∃ kept, Keyed.find? uuid (parse (render spacedList)) = some kept ∧
          Text.Trimmed hostname kept) ∧
      (parse (render spacedList) = spacedList ↔ ∀ entry ∈ spacedList, Text.Tight entry.2) := by
  have hord : Keyed.Ordered spacedList := List.pairwise_pair.mpr (by decide)
  have hchecked : ∀ entry ∈ spacedList,
      checkUuid entry.1 = .ok () ∧ checkHostname entry.2 = .ok () := by
    simp only [checkUuid_eq_ok, checkHostname_eq_ok]
    decide
  exact ⟨hord, hchecked, parse_render_of_checked hord hchecked⟩

def indentedList : List (String × String) := [("u-1", " web-1")]

/-- The blank at the start of the hostname does not come back. -/
theorem indentedList_parse_render_ne :
    Keyed.Ordered indentedList ∧
      (∀ entry ∈ indentedList, checkUuid entry.1 = .ok () ∧ checkHostname entry.2 = .ok ()) ∧
      parse (render indentedList) = [("u-1", "web-1")] ∧
      parse (render indentedList) ≠ indentedList := by
  refine ⟨List.pairwise_singleton _ _, ?_, by decide +kernel, by decide +kernel⟩
  simp only [checkUuid_eq_ok, checkHostname_eq_ok]
  decide

end AllowedList
end Push
end FleetMesh
