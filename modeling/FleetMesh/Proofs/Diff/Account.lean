/-
Every change once, and nothing else.

A pair of nodes, one of each snapshot, is `Compared` if it is the two roots, or the
children under one key of a pair that is compared and did not go down.  What the
own records of a pair tell is `Told`.  That a global status moved is told of a pair
only if nothing else is told of it or of what is below it, so what there is to tell
is said of all events together: `Accounts` has the events with the differences that
they report, no difference twice, and each exactly if it is `Reported`.

What a comparison gives is such an account (`accounts_account`), and there is no
other but for the order (`Accounts.perm`).  It is empty exactly if the trees agree
wherever both have a node (`diff_eq_nil_iff`).
-/
import FleetMesh.Proofs.Duplicates.Repeat

namespace FleetMesh
namespace Node

/-! ## Differences -/

/-- In what two snapshots of one machine differ. -/
inductive Aspect
  | fell
  | rose
  /-- A reading of both, with another status. -/
  | altered (name : String)
  /-- A reading of the older one only. -/
  | vanished (name : String)
  /-- A reading of the newer one only. -/
  | appeared (name : String)
  /-- The global status, where nothing below explains it. -/
  | moved
  deriving DecidableEq

/-- An aspect, and the path of the machine. -/
structure Difference where
  path : List String
  aspect : Aspect
  deriving DecidableEq

def Falls (old new : NodeInfo) : Prop := old.isAlive = true ∧ new.isAlive = false

def Rises (old new : NodeInfo) : Prop := old.isAlive = false ∧ new.isAlive = true

instance (old new : NodeInfo) : Decidable (Falls old new) :=
  inferInstanceAs (Decidable (_ ∧ _))

instance (old new : NodeInfo) : Decidable (Rises old new) :=
  inferInstanceAs (Decidable (_ ∧ _))

/-- The pairs of nodes that are compared, by their paths. -/
inductive Compared (old new : Node) : List String → Node → Node → Prop
  | root : Compared old new [] old new
  | child {path : List String} {key : String} {a b c d : Node} (h : Compared old new path a b)
    (hstays : ¬ Falls a.toNodeInfo b.toNodeInfo) (hc : Keyed.find? key a.children = some c)
    (hd : Keyed.find? key b.children = some d) : Compared old new (path ++ [key]) c d

/-- What the own records of a pair tell. -/
inductive Told (old new : NodeInfo) : Aspect → Event → Prop
  | fell (h : Falls old new) : Told old new .fell (.nodeDown new.uuid new.hostname new.globalMessage)
  | rose (h : Rises old new) : Told old new .rose (.nodeUp new.uuid new.hostname)
  | altered {name : String} {r s : Reading} (hstays : ¬ Falls old new)
    (hr : old.localHost.reading? name = some r) (hs : new.localHost.reading? name = some s)
    (hne : r.status ≠ s.status) :
    Told old new (.altered name) (.statusChanged
      ⟨new.hostname, some name, r.status, s.status, s.message, new.localHost.alarming⟩)
  | vanished {name : String} {r : Reading} (halive : new.isAlive = true)
    (hr : old.localHost.reading? name = some r) (hs : new.localHost.reading? name = none) :
    Told old new (.vanished name) (.probeRemoved new.hostname r)
  | appeared {name : String} {s : Reading} (halive : new.isAlive = true)
    (hr : old.localHost.reading? name = none) (hs : new.localHost.reading? name = some s) :
    Told old new (.appeared name) (.probeAdded new.hostname s)

/-- Events with the differences that they report. -/
abbrev Account := List (Difference × Event)

/-- What is to be reported of two snapshots, where the whole account is as given. -/
inductive Reported (old new : Node) (account : Account) : Difference → Event → Prop
  | own {path : List String} {a b : Node} {aspect : Aspect} {event : Event}
    (h : Compared old new path a b) (htold : Told a.toNodeInfo b.toNodeInfo aspect event) :
    Reported old new account ⟨path, aspect⟩ event
  | moved {path : List String} {a b : Node} (h : Compared old new path a b)
    (hfalls : ¬ Falls a.toNodeInfo b.toNodeInfo) (hrises : ¬ Rises a.toNodeInfo b.toNodeInfo)
    (hne : a.globalStatus ≠ b.globalStatus)
    (honly : ∀ entry ∈ account, path <+: entry.1.path → entry.1 = ⟨path, .moved⟩) :
    Reported old new account ⟨path, .moved⟩ (.statusChanged
      ⟨b.hostname, none, a.globalStatus, b.globalStatus, b.globalMessage, b.localHost.alarming⟩)

structure Accounts (account : Account) (old new : Node) : Prop where
  once : (account.map Prod.fst).Nodup
  exact : ∀ d event, (d, event) ∈ account ↔ Reported old new account d event

/-- Two records that give no reason for an event. -/
structure Agree (old new : NodeInfo) : Prop where
  alive : old.isAlive = new.isAlive
  global : old.globalStatus = new.globalStatus
  statuses : ∀ name r s, old.localHost.reading? name = some r →
    new.localHost.reading? name = some s → r.status = s.status
  names : new.isAlive = true → ∀ name,
    (old.localHost.reading? name).isSome = (new.localHost.reading? name).isSome

/-! ## The comparison as an account -/

/-- What became of one reading of the older snapshot. -/
def accountReading (new : NodeInfo) (name : String) (r : Reading) : List (Aspect × Event) :=
  match new.localHost.reading? name with
  | some latest => (readingChange new name r latest).map (Prod.mk (.altered name))
  | none => if new.isAlive then [(.vanished name, .probeRemoved new.hostname r)] else []

def accountOlder (old new : NodeInfo) : List (Aspect × Event) :=
  old.localHost.readings.flatMap fun e => accountReading new e.1 e.2

def accountNewer (old new : NodeInfo) : List (Aspect × Event) :=
  if new.isAlive then
    new.localHost.readings.flatMap fun e =>
      if Keyed.contains e.1 old.localHost.readings then []
      else [(.appeared e.1, .probeAdded new.hostname e.2)]
  else []

/-- What is told of a pair by its own records. -/
def accountOwn (old new : NodeInfo) : List (Aspect × Event) :=
  if Falls old new then [(.fell, .nodeDown new.uuid new.hostname new.globalMessage)]
  else
    (if Rises old new then [(.rose, .nodeUp new.uuid new.hostname)] else [])
      ++ (accountOlder old new ++ accountNewer old new)

def atRoot (told : List (Aspect × Event)) : Account :=
  told.map fun entry => (⟨[], entry.1⟩, entry.2)

/-- An account of a child, told of the tree. -/
def under (key : String) (account : Account) : Account :=
  account.map fun entry => (⟨key :: entry.1.path, entry.1.aspect⟩, entry.2)

mutual

/-- The comparison, each event with the difference that it reports. -/
def account : Node → Node → Account
  | ⟨old, oldChildren⟩, new =>
    let said := atRoot (accountOwn old new.toNodeInfo)
      ++ if Falls old new.toNodeInfo then [] else accountChildren oldChildren new.children
    if said.isEmpty then atRoot ((diffStatus old new.toNodeInfo).map (Prod.mk .moved)) else said

def accountChildren : List (String × Node) → List (String × Node) → Account
  | [], _ => []
  | (key, child) :: rest, newer =>
    (match Keyed.find? key newer with
      | some latest => under key (account child latest)
      | none => []) ++ accountChildren rest newer

end

/-- What is said before global statuses are looked at. -/
def said (old new : Node) : Account :=
  atRoot (accountOwn old.toNodeInfo new.toNodeInfo)
    ++ if Falls old.toNodeInfo new.toNodeInfo then []
      else accountChildren old.children new.children

theorem account_eq (old new : Node) :
    account old new =
      if said old new = [] then
        atRoot ((diffStatus old.toNodeInfo new.toNodeInfo).map (Prod.mk .moved))
      else said old new := by
  obtain ⟨info, children⟩ := old
  rw [account]
  simp only [List.isEmpty_iff]
  rfl

theorem accountChildren_eq (children newer : List (String × Node)) :
    accountChildren children newer = children.flatMap (fun e =>
      match Keyed.find? e.1 newer with
      | some latest => under e.1 (account e.2 latest)
      | none => []) := by
  induction children with
  | nil => rfl
  | cons e rest ih =>
    obtain ⟨key, child⟩ := e
    rw [List.flatMap_cons, ← ih]
    rfl

/-! ## Its events -/

theorem events_atRoot (told : List (Aspect × Event)) :
    (atRoot told).map Prod.snd = told.map Prod.snd := by
  rw [atRoot, List.map_map]
  rfl

theorem events_under (key : String) (account : Account) :
    (under key account).map Prod.snd = account.map Prod.snd := by
  rw [under, List.map_map]
  rfl

theorem events_labelled {α : Type} (a : α) (events : List Event) :
    (events.map (Prod.mk a)).map Prod.snd = events := by
  rw [List.map_map]
  exact List.map_id events

theorem events_accountOlder (old new : NodeInfo) :
    (accountOlder old new).map Prod.snd = diffOlder old new := by
  rw [accountOlder, diffOlder, List.map_flatMap]
  refine List.flatMap_congr fun e _ => ?_
  dsimp only [accountReading]
  cases new.localHost.reading? e.1 with
  | some latest => exact events_labelled _ _
  | none => cases new.isAlive <;> rfl

theorem events_accountNewer (old new : NodeInfo) :
    (accountNewer old new).map Prod.snd = diffNewer old new := by
  rw [accountNewer, diffNewer]
  split
  · rw [List.map_flatMap]
    refine List.flatMap_congr fun e _ => ?_
    dsimp only
    split <;> rfl
  · rfl

theorem events_accountOwn (old new : NodeInfo) :
    (accountOwn old new).map Prod.snd =
      if Falls old new then [.nodeDown new.uuid new.hostname new.globalMessage]
      else (if Rises old new then [.nodeUp new.uuid new.hostname] else []) ++ diffReadings old new := by
  rw [accountOwn]
  split
  · rfl
  · rw [List.map_append, List.map_append, events_accountOlder, events_accountNewer, ← diffReadings]
    split <;> rfl

theorem events_account (old new : Node) : (account old new).map Prod.snd = diff old new := by
  induction old using induct generalizing new with
  | step old ih =>
    have hchildren : (accountChildren old.children new.children).map Prod.snd
        = diffChildren old.children new.children := by
      rw [accountChildren_eq, diffChildren_eq, List.map_flatMap]
      refine List.flatMap_congr fun e he => ?_
      cases Keyed.find? e.1 new.children with
      | none => rfl
      | some latest => exact (events_under e.1 _).trans (ih e he latest)
    have hsaid : (said old new).map Prod.snd =
        if Falls old.toNodeInfo new.toNodeInfo then
          [.nodeDown new.uuid new.hostname new.globalMessage]
        else (if Rises old.toNodeInfo new.toNodeInfo then [.nodeUp new.uuid new.hostname] else [])
          ++ (diffReadings old.toNodeInfo new.toNodeInfo
            ++ diffChildren old.children new.children) := by
      rw [said, List.map_append, events_atRoot, events_accountOwn]
      split
      · rfl
      · rw [hchildren, List.append_assoc]
    have hempty : said old new = [] ↔ (said old new).map Prod.snd = [] := List.map_eq_nil_iff.symm
    rw [account_eq, diff_eq, apply_ite (List.map Prod.snd), events_atRoot, events_labelled]
    simp only [hempty, hsaid, List.isEmpty_iff]
    cases hold : old.isAlive <;> cases hnew : new.isAlive <;> simp [Falls, Rises, hold, hnew]

/-! ## What is told of one pair -/

variable {old new : NodeInfo} {aspect : Aspect} {event : Event}

theorem not_falls_of_alive (h : new.isAlive = true) : ¬ Falls old new := fun hfalls =>
  Bool.false_ne_true (hfalls.2.symm.trans h)

theorem mem_labelledChange {name : String} {r latest : Reading} :
    (aspect, event) ∈ (readingChange new name r latest).map (Prod.mk (.altered name)) ↔
      r.status ≠ latest.status ∧ aspect = .altered name ∧ event = .statusChanged
        ⟨new.hostname, some name, r.status, latest.status, latest.message,
          new.localHost.alarming⟩ := by
  rw [readingChange]
  by_cases hsame : latest.status = r.status
  · simp [hsame]
  · simp [hsame, Ne.symm hsame]

theorem told_of_mem_accountOlder (hold : Keyed.Ordered old.localHost.readings)
    (hstays : ¬ Falls old new) (h : (aspect, event) ∈ accountOlder old new) :
    Told old new aspect event := by
  obtain ⟨e, he, hentry⟩ := List.mem_flatMap.mp h
  have hr : old.localHost.reading? e.1 = some e.2 := Keyed.find?_of_mem hold he
  dsimp only [accountReading] at hentry
  cases hs : new.localHost.reading? e.1 with
  | some latest =>
    rw [hs] at hentry
    obtain ⟨hne, rfl, rfl⟩ := mem_labelledChange.mp hentry
    exact .altered hstays hr hs hne
  | none =>
    rw [hs] at hentry
    obtain ⟨halive, hentry⟩ := List.mem_ite_nil_right.mp hentry
    obtain ⟨rfl, rfl⟩ := Prod.mk.inj (List.mem_singleton.mp hentry)
    exact .vanished halive hr hs

theorem told_of_mem_accountNewer (hnew : Keyed.Ordered new.localHost.readings)
    (h : (aspect, event) ∈ accountNewer old new) : Told old new aspect event := by
  obtain ⟨halive, h⟩ := List.mem_ite_nil_right.mp h
  obtain ⟨e, he, hentry⟩ := List.mem_flatMap.mp h
  obtain ⟨hunknown, hentry⟩ := List.mem_ite_nil_left.mp hentry
  obtain ⟨rfl, rfl⟩ := Prod.mk.inj (List.mem_singleton.mp hentry)
  exact .appeared halive (Keyed.not_contains_iff.mp hunknown) (Keyed.find?_of_mem hnew he)

theorem mem_accountOwn (hold : Keyed.Ordered old.localHost.readings)
    (hnew : Keyed.Ordered new.localHost.readings) :
    (aspect, event) ∈ accountOwn old new ↔ Told old new aspect event := by
  rw [accountOwn]
  constructor
  · intro h
    split at h
    · rename_i hfalls
      obtain ⟨rfl, rfl⟩ := Prod.mk.inj (List.mem_singleton.mp h)
      exact .fell hfalls
    · rename_i hstays
      rcases List.mem_append.mp h with h | h
      · obtain ⟨hrises, h⟩ := List.mem_ite_nil_right.mp h
        obtain ⟨rfl, rfl⟩ := Prod.mk.inj (List.mem_singleton.mp h)
        exact .rose hrises
      · rcases List.mem_append.mp h with h | h
        · exact told_of_mem_accountOlder hold hstays h
        · exact told_of_mem_accountNewer hnew h
  · intro h
    cases h with
    | fell h =>
      rw [if_pos h]
      exact List.mem_singleton.mpr rfl
    | rose h =>
      rw [if_neg (not_falls_of_alive h.2), if_pos h]
      exact List.mem_append_left _ (List.mem_singleton.mpr rfl)
    | altered hstays hr hs hne =>
      rw [if_neg hstays]
      refine List.mem_append_right _ (List.mem_append_left _ ?_)
      refine List.mem_flatMap.mpr ⟨_, Keyed.mem_of_find? hr, ?_⟩
      dsimp only [accountReading]
      rw [hs]
      exact mem_labelledChange.mpr ⟨hne, rfl, rfl⟩
    | vanished halive hr hs =>
      rw [if_neg (not_falls_of_alive halive)]
      refine List.mem_append_right _ (List.mem_append_left _ ?_)
      refine List.mem_flatMap.mpr ⟨_, Keyed.mem_of_find? hr, ?_⟩
      dsimp only [accountReading]
      rw [hs, if_pos halive]
      exact List.mem_singleton.mpr rfl
    | appeared halive hr hs =>
      rw [if_neg (not_falls_of_alive halive)]
      refine List.mem_append_right _ (List.mem_append_right _ ?_)
      rw [accountNewer, if_pos halive]
      refine List.mem_flatMap.mpr ⟨_, Keyed.mem_of_find? hs, ?_⟩
      rw [if_neg (Keyed.not_contains_iff.mpr hr)]
      exact List.mem_singleton.mpr rfl

/-! ## No difference twice -/

theorem aspect_of_mem_accountReading {name : String} {r : Reading} {entry : Aspect × Event}
    (h : entry ∈ accountReading new name r) :
    entry.1 = .altered name ∨ entry.1 = .vanished name := by
  rw [accountReading] at h
  split at h
  · obtain ⟨_, _, rfl⟩ := List.mem_map.mp h
    exact Or.inl rfl
  · obtain ⟨-, h⟩ := List.mem_ite_nil_right.mp h
    exact Or.inr (congrArg Prod.fst (List.mem_singleton.mp h))

theorem aspect_of_mem_accountNewer {entry : Aspect × Event} (h : entry ∈ accountNewer old new) :
    ∃ name, entry.1 = .appeared name := by
  obtain ⟨-, h⟩ := List.mem_ite_nil_right.mp h
  obtain ⟨e, _, h⟩ := List.mem_flatMap.mp h
  obtain ⟨-, h⟩ := List.mem_ite_nil_left.mp h
  exact ⟨e.1, congrArg Prod.fst (List.mem_singleton.mp h)⟩

theorem once_accountOlder (hold : Keyed.Ordered old.localHost.readings) :
    (accountOlder old new).Pairwise (fun x y => x.1 ≠ y.1) := by
  rw [accountOlder, List.pairwise_flatMap]
  refine ⟨fun e _ => ?_, List.Pairwise.imp (fun {e d} hlt x hx y hy heq => ?_) hold⟩
  · rw [accountReading]
    split
    · rw [readingChange]
      split <;> simp
    · split <;> simp
  · have hkey : e.1 = d.1 := by
      rcases aspect_of_mem_accountReading hx with hx | hx <;>
        rcases aspect_of_mem_accountReading hy with hy | hy <;> simp_all
    exact String.lt_irrefl d.1 (hkey ▸ hlt)

theorem once_accountNewer (hnew : Keyed.Ordered new.localHost.readings) :
    (accountNewer old new).Pairwise (fun x y => x.1 ≠ y.1) := by
  rw [accountNewer]
  split
  · rw [List.pairwise_flatMap]
    refine ⟨fun e _ => ?_, List.Pairwise.imp (fun {e d} hlt x hx y hy heq => ?_) hnew⟩
    · split <;> simp
    · have hkey : e.1 = d.1 := by
        split at hx <;> split at hy <;> simp_all
      exact String.lt_irrefl d.1 (hkey ▸ hlt)
  · exact List.Pairwise.nil

theorem once_accountOwn (hold : Keyed.Ordered old.localHost.readings)
    (hnew : Keyed.Ordered new.localHost.readings) :
    (accountOwn old new).Pairwise (fun x y => x.1 ≠ y.1) := by
  rw [accountOwn]
  split
  · exact List.pairwise_singleton _ _
  · refine List.pairwise_append.mpr ⟨by split <;> simp, List.pairwise_append.mpr
      ⟨once_accountOlder hold, once_accountNewer hnew, fun x hx y hy => ?_⟩, fun x hx y hy => ?_⟩
    · obtain ⟨e, _, hx⟩ := List.mem_flatMap.mp hx
      obtain ⟨name, hy⟩ := aspect_of_mem_accountNewer hy
      rcases aspect_of_mem_accountReading hx with hx | hx <;> simp [hx, hy]
    · have hx : x.1 = .rose := by
        obtain ⟨-, hx⟩ := List.mem_ite_nil_right.mp hx
        exact congrArg Prod.fst (List.mem_singleton.mp hx)
      rcases List.mem_append.mp hy with hy | hy
      · obtain ⟨e, _, hy⟩ := List.mem_flatMap.mp hy
        rcases aspect_of_mem_accountReading hy with hy | hy <;> simp [hx, hy]
      · obtain ⟨name, hy⟩ := aspect_of_mem_accountNewer hy
        simp [hx, hy]

end Node

/-! ## Compared pairs -/

namespace Node

variable {old new a b c d : Node} {path : List String} {key : String}

theorem Compared.at? (h : Compared old new path a b) :
    Node.at? path old = some a ∧ Node.at? path new = some b := by
  induction h with
  | root => exact ⟨rfl, rfl⟩
  | child h _ hc hd ih =>
    rw [at?_append, at?_append, ih.1, ih.2]
    exact ⟨at?_cons_eq_some.mpr ⟨_, hc, rfl⟩, at?_cons_eq_some.mpr ⟨_, hd, rfl⟩⟩

theorem compared_nil_iff : Compared old new [] a b ↔ a = old ∧ b = new := by
  constructor
  · intro h
    obtain ⟨ha, hb⟩ := h.at?
    exact ⟨(Option.some.inj ha).symm, (Option.some.inj hb).symm⟩
  · rintro ⟨rfl, rfl⟩
    exact .root

theorem compared_cons_iff : Compared old new (key :: path) a b ↔
    ¬ Falls old.toNodeInfo new.toNodeInfo ∧ ∃ c d, Keyed.find? key old.children = some c ∧
      Keyed.find? key new.children = some d ∧ Compared c d path a b := by
  constructor
  · intro h
    generalize hp : key :: path = p at h
    induction h generalizing path with
    | root => exact nomatch hp
    | @child p' key' _ _ c d h hstays hc hd ih =>
      cases p' with
      | nil =>
        obtain ⟨rfl, rfl⟩ := List.cons.inj hp
        obtain ⟨rfl, rfl⟩ := compared_nil_iff.mp h
        exact ⟨hstays, c, d, hc, hd, .root⟩
      | cons key p' =>
        obtain ⟨rfl, rfl⟩ := List.cons.inj hp
        obtain ⟨hroot, c', d', hc', hd', h'⟩ := ih rfl
        exact ⟨hroot, c', d', hc', hd', .child h' hstays hc hd⟩
  · rintro ⟨hroot, c, d, hc, hd, h⟩
    induction h with
    | root =>
      show Compared old new ([] ++ [key]) _ _
      exact .child .root hroot hc hd
    | child _ hstays hc' hd' ih => exact .child ih hstays hc' hd'

/-! ## Reported differences -/

variable {acc acc' : Account} {aspect : Aspect} {event : Event}

theorem Told.ne_moved {old new : NodeInfo} (h : Told old new aspect event) : aspect ≠ .moved := by
  cases h <;> exact nofun

theorem Reported.compared {diff : Difference} (h : Reported old new acc diff event) :
    ∃ a b, Compared old new diff.path a b := by
  cases h with
  | own h _ => exact ⟨_, _, h⟩
  | moved h _ _ _ _ => exact ⟨_, _, h⟩

theorem reported_root_iff : Reported old new acc ⟨[], aspect⟩ event ↔
    Told old.toNodeInfo new.toNodeInfo aspect event ∨
      aspect = .moved ∧ ¬ Falls old.toNodeInfo new.toNodeInfo ∧
        ¬ Rises old.toNodeInfo new.toNodeInfo ∧
        (∀ entry ∈ acc, entry.1 = ⟨[], .moved⟩) ∧
        event ∈ diffStatus old.toNodeInfo new.toNodeInfo := by
  have hstatus : event ∈ diffStatus old.toNodeInfo new.toNodeInfo ↔
      old.globalStatus ≠ new.globalStatus ∧ event = .statusChanged ⟨new.hostname, none,
        old.globalStatus, new.globalStatus, new.globalMessage, new.localHost.alarming⟩ := by
    rw [diffStatus]
    split <;> simp [*]
  rw [hstatus]
  constructor
  · intro h
    generalize hd : (⟨[], aspect⟩ : Difference) = diff at h
    cases h with
    | own h htold =>
      obtain ⟨rfl, rfl⟩ := Difference.mk.inj hd
      obtain ⟨rfl, rfl⟩ := compared_nil_iff.mp h
      exact Or.inl htold
    | moved h hfalls hrises hne honly =>
      obtain ⟨rfl, rfl⟩ := Difference.mk.inj hd
      obtain ⟨rfl, rfl⟩ := compared_nil_iff.mp h
      exact Or.inr ⟨rfl, hfalls, hrises, fun entry he => honly entry he (List.nil_prefix), hne, rfl⟩
  · rintro (htold | ⟨rfl, hfalls, hrises, honly, hne, rfl⟩)
    · exact .own .root htold
    · exact .moved .root hfalls hrises hne fun entry he _ => honly entry he

/-- What is reported at or below a child is what is reported of the child. -/
theorem reported_child_iff (hstays : ¬ Falls old.toNodeInfo new.toNodeInfo)
    (hc : Keyed.find? key old.children = some c) (hd : Keyed.find? key new.children = some d)
    (hacc : ∀ path aspect event,
      (⟨key :: path, aspect⟩, event) ∈ acc ↔ (⟨path, aspect⟩, event) ∈ acc') :
    Reported old new acc ⟨key :: path, aspect⟩ event ↔ Reported c d acc' ⟨path, aspect⟩ event := by
  have hcompared : ∀ {path a b}, Compared old new (key :: path) a b ↔ Compared c d path a b := by
    intro path a b
    rw [compared_cons_iff, hc, hd]
    simp [hstays]
  have honly : ∀ path, (∀ entry ∈ acc, key :: path <+: entry.1.path →
      entry.1 = ⟨key :: path, .moved⟩) ↔
        ∀ entry ∈ acc', path <+: entry.1.path → entry.1 = ⟨path, .moved⟩ := by
    intro path
    constructor
    · rintro h ⟨⟨p, aspect⟩, event⟩ he hp
      have hentry := h _ ((hacc p aspect event).mpr he) (List.cons_prefix_cons.mpr ⟨rfl, hp⟩)
      obtain ⟨hpath, rfl⟩ := Difference.mk.inj hentry
      exact congrArg (Difference.mk · _) (List.cons.inj hpath).2
    · rintro h ⟨⟨p, aspect⟩, event⟩ he hp
      cases p with
      | nil => exact absurd hp (by simp)
      | cons k p =>
        obtain ⟨rfl, hbelow⟩ := List.cons_prefix_cons.mp hp
        obtain ⟨rfl, rfl⟩ := Difference.mk.inj (h _ ((hacc p aspect event).mp he) hbelow)
        rfl
  constructor
  · intro h
    generalize hdiff : (⟨key :: path, aspect⟩ : Difference) = diff at h
    cases h with
    | own h htold =>
      obtain ⟨rfl, rfl⟩ := Difference.mk.inj hdiff
      exact .own (hcompared.mp h) htold
    | moved h hfalls hrises hne hall =>
      obtain ⟨rfl, rfl⟩ := Difference.mk.inj hdiff
      exact .moved (hcompared.mp h) hfalls hrises hne ((honly path).mp hall)
  · intro h
    cases h with
    | own h htold => exact .own (hcompared.mpr h) htold
    | moved h hfalls hrises hne hall =>
      exact .moved (hcompared.mpr h) hfalls hrises hne ((honly path).mpr hall)

/-! ## Members of the account -/

theorem mem_atRoot {told : List (Aspect × Event)} {diff : Difference} :
    (diff, event) ∈ atRoot told ↔ diff.path = [] ∧ (diff.aspect, event) ∈ told := by
  obtain ⟨path, aspect⟩ := diff
  simp [atRoot, and_comm, eq_comm]

theorem mem_under {diff : Difference} :
    (diff, event) ∈ under key acc ↔
      ∃ path, diff.path = key :: path ∧ (⟨path, diff.aspect⟩, event) ∈ acc := by
  obtain ⟨path, aspect⟩ := diff
  rw [under, List.mem_map]
  constructor
  · rintro ⟨⟨⟨p, aspect'⟩, event'⟩, he, heq⟩
    obtain ⟨hdiff, rfl⟩ := Prod.mk.inj heq
    obtain ⟨rfl, rfl⟩ := Difference.mk.inj hdiff
    exact ⟨p, rfl, he⟩
  · rintro ⟨p, rfl, he⟩
    exact ⟨_, he, rfl⟩

/-- What a child's account tells stands under the child's key. -/
theorem path_of_mem_child {e : String × Node} {newer : List (String × Node)}
    {entry : Difference × Event}
    (h : entry ∈ match Keyed.find? e.1 newer with
      | some latest => under e.1 (account e.2 latest)
      | none => []) : ∃ path, entry.1.path = e.1 :: path := by
  cases hlatest : Keyed.find? e.1 newer with
  | none =>
    rw [hlatest] at h
    exact absurd h List.not_mem_nil
  | some latest =>
    rw [hlatest] at h
    obtain ⟨path, hpath, -⟩ := mem_under.mp h
    exact ⟨path, hpath⟩

theorem mem_accountChildren {children newer : List (String × Node)}
    (hordered : Keyed.Ordered children) {diff : Difference} :
    (diff, event) ∈ accountChildren children newer ↔
      ∃ key path c latest, diff.path = key :: path ∧ Keyed.find? key children = some c ∧
        Keyed.find? key newer = some latest ∧ (⟨path, diff.aspect⟩, event) ∈ account c latest := by
  rw [accountChildren_eq, List.mem_flatMap]
  constructor
  · rintro ⟨e, he, hentry⟩
    cases hlatest : Keyed.find? e.1 newer with
    | none => simp [hlatest] at hentry
    | some latest =>
      rw [hlatest] at hentry
      obtain ⟨path, hpath, hentry⟩ := mem_under.mp hentry
      exact ⟨e.1, path, e.2, latest, hpath, Keyed.find?_of_mem hordered he, hlatest, hentry⟩
  · rintro ⟨key, path, c, latest, hpath, hc, hlatest, hentry⟩
    refine ⟨(key, c), Keyed.mem_of_find? hc, ?_⟩
    dsimp only
    rw [hlatest]
    exact mem_under.mpr ⟨path, hpath, hentry⟩

theorem mem_said_root : (⟨[], aspect⟩, event) ∈ said old new ↔
    (aspect, event) ∈ accountOwn old.toNodeInfo new.toNodeInfo := by
  rw [said, List.mem_append, mem_atRoot]
  constructor
  · rintro (⟨-, h⟩ | h)
    · exact h
    · -- what is said of children has their keys in its paths
      obtain ⟨-, h⟩ := List.mem_ite_nil_left.mp h
      rw [accountChildren_eq, List.mem_flatMap] at h
      obtain ⟨e, _, h⟩ := h
      obtain ⟨path, hpath⟩ := path_of_mem_child h
      exact nomatch hpath
  · exact fun h => Or.inl ⟨rfl, h⟩

theorem mem_said_child (hordered : Keyed.Ordered old.children) :
    (⟨key :: path, aspect⟩, event) ∈ said old new ↔
      ¬ Falls old.toNodeInfo new.toNodeInfo ∧ ∃ c d, Keyed.find? key old.children = some c ∧
        Keyed.find? key new.children = some d ∧ (⟨path, aspect⟩, event) ∈ account c d := by
  rw [said, List.mem_append, mem_atRoot]
  by_cases hfalls : Falls old.toNodeInfo new.toNodeInfo
  · simp [hfalls]
  · rw [if_neg hfalls, mem_accountChildren hordered]
    constructor
    · rintro (⟨h, -⟩ | ⟨k, p, c, d, hpath, hc, hd, h⟩)
      · exact nomatch h
      · obtain ⟨rfl, rfl⟩ := List.cons.inj hpath
        exact ⟨hfalls, c, d, hc, hd, h⟩
    · rintro ⟨-, c, d, hc, hd, h⟩
      exact Or.inr ⟨key, path, c, d, rfl, hc, hd, h⟩

theorem mem_account_child (hordered : Keyed.Ordered old.children) :
    (⟨key :: path, aspect⟩, event) ∈ account old new ↔
      ¬ Falls old.toNodeInfo new.toNodeInfo ∧ ∃ c d, Keyed.find? key old.children = some c ∧
        Keyed.find? key new.children = some d ∧ (⟨path, aspect⟩, event) ∈ account c d := by
  rw [← mem_said_child hordered, account_eq]
  split
  · rename_i hnothing
    rw [hnothing, mem_atRoot]
    simp
  · exact Iff.rfl

theorem mem_account_root : (⟨[], aspect⟩, event) ∈ account old new ↔
    (aspect, event) ∈ accountOwn old.toNodeInfo new.toNodeInfo ∨
      said old new = [] ∧ aspect = .moved ∧ event ∈ diffStatus old.toNodeInfo new.toNodeInfo := by
  rw [← mem_said_root, account_eq]
  split
  · rename_i hnothing
    rw [hnothing, mem_atRoot]
    simp [and_comm, eq_comm]
  · rename_i hsaid
    simp [hsaid]

/-- Nothing is said before the global statuses are looked at, if the account is of the root's
global status alone. -/
theorem said_eq_nil_iff (hold : Keyed.Ordered old.localHost.readings)
    (hnew : Keyed.Ordered new.localHost.readings) : said old new = [] ↔
      ¬ Falls old.toNodeInfo new.toNodeInfo ∧ ¬ Rises old.toNodeInfo new.toNodeInfo ∧
        ∀ entry ∈ account old new, entry.1 = ⟨[], .moved⟩ := by
  constructor
  · intro hnothing
    have hsilent : ∀ aspect event, ¬ Told old.toNodeInfo new.toNodeInfo aspect event := by
      intro aspect event htold
      have hsaid := mem_said_root.mpr ((mem_accountOwn hold hnew).mpr htold)
      exact List.not_mem_nil (hnothing ▸ hsaid)
    refine ⟨fun h => hsilent _ _ (.fell h), fun h => hsilent _ _ (.rose h), fun entry he => ?_⟩
    rw [account_eq, if_pos hnothing] at he
    obtain ⟨labelled, hlabelled, rfl⟩ := List.mem_map.mp he
    obtain ⟨event, _, rfl⟩ := List.mem_map.mp hlabelled
    rfl
  · rintro ⟨-, -, honly⟩
    by_contra hsaid
    obtain ⟨⟨⟨path, aspect⟩, event⟩, he⟩ := List.exists_mem_of_ne_nil _ hsaid
    rw [account_eq, if_neg hsaid] at honly
    obtain ⟨rfl, rfl⟩ := Difference.mk.inj (honly _ he)
    exact ((mem_accountOwn hold hnew).mp (mem_said_root.mp he)).ne_moved rfl

/-! ## The account is right -/

theorem mem_account_iff (hold : old.InOrder) (hto : old.Tabled) (htn : new.Tabled)
    {diff : Difference} :
    (diff, event) ∈ account old new ↔ Reported old new (account old new) diff event := by
  induction old using induct generalizing new diff event with
  | step old ih =>
    obtain ⟨path, aspect⟩ := diff
    cases path with
    | nil =>
      rw [mem_account_root, reported_root_iff, mem_accountOwn hto.root htn.root,
        said_eq_nil_iff hto.root htn.root]
      tauto
    | cons key path =>
      rw [mem_account_child hold.ordered]
      have hstep : ∀ c d, ¬ Falls old.toNodeInfo new.toNodeInfo →
          Keyed.find? key old.children = some c → Keyed.find? key new.children = some d →
          ((⟨path, aspect⟩, event) ∈ account c d ↔
            Reported old new (account old new) ⟨key :: path, aspect⟩ event) := by
        intro c d hstays hc hd
        have hmem := Keyed.mem_of_find? hc
        rw [ih _ hmem (hold.child hc) ((everywhere_iff.mp hto).2 _ hmem)
          ((everywhere_iff.mp htn).2 _ (Keyed.mem_of_find? hd))]
        refine (reported_child_iff hstays hc hd fun path aspect event => ?_).symm
        rw [mem_account_child hold.ordered, hc, hd]
        simp [hstays]
      constructor
      · rintro ⟨hstays, c, d, hc, hd, h⟩
        exact (hstep c d hstays hc hd).mp h
      · intro h
        obtain ⟨a, b, hcompared⟩ := h.compared
        obtain ⟨hstays, c, d, hc, hd, -⟩ := compared_cons_iff.mp hcompared
        exact ⟨hstays, c, d, hc, hd, (hstep c d hstays hc hd).mpr h⟩

theorem once_account (hold : old.InOrder) (hto : old.Tabled) (htn : new.Tabled) :
    (account old new).Pairwise (fun x y => x.1 ≠ y.1) := by
  induction old using induct generalizing new with
  | step old ih =>
    rw [account_eq]
    split
    · rw [diffStatus]
      split <;> simp [atRoot]
    · rw [said]
      refine List.pairwise_append.mpr ⟨?_, ?_, fun x hx y hy heq => ?_⟩
      · rw [atRoot, List.pairwise_map]
        exact (once_accountOwn hto.root htn.root).imp fun hne heq => hne (Difference.mk.inj heq).2
      · split
        · exact List.Pairwise.nil
        · rw [accountChildren_eq, List.pairwise_flatMap]
          refine ⟨fun e he => ?_, List.Pairwise.imp (fun {e d} hlt x hx y hy heq => ?_)
            hold.ordered⟩
          · cases hd : Keyed.find? e.1 new.children with
            | none => exact List.Pairwise.nil
            | some d =>
              dsimp only
              rw [under, List.pairwise_map]
              refine (ih e he ((everywhere_iff.mp hold).2 e he) ((everywhere_iff.mp hto).2 e he)
                ((everywhere_iff.mp htn).2 _ (Keyed.mem_of_find? hd))).imp ?_
              intro x y hne heq
              obtain ⟨hpath, haspect⟩ := Difference.mk.inj heq
              exact hne (congrArg₂ Difference.mk (List.cons.inj hpath).2 haspect)
          · obtain ⟨p, hp⟩ := path_of_mem_child hx
            obtain ⟨q, hq⟩ := path_of_mem_child hy
            rw [heq, hq] at hp
            obtain ⟨hkey, -⟩ := List.cons.inj hp
            exact String.lt_irrefl e.1 (hkey ▸ hlt)
      · obtain ⟨hroot, -⟩ := mem_atRoot.mp hx
        obtain ⟨-, hy⟩ := List.mem_ite_nil_left.mp hy
        obtain ⟨key, path, -, -, hpath, -⟩ := (mem_accountChildren hold.ordered).mp hy
        rw [heq, hpath] at hroot
        exact absurd hroot (List.cons_ne_nil _ _)

theorem accounts_account (hold : old.InOrder) (hto : old.Tabled) (htn : new.Tabled) :
    Accounts (account old new) old new where
  once := List.pairwise_map.mpr (once_account hold hto htn)
  exact _ _ := mem_account_iff hold hto htn

/-! ## And the only one -/

/-- Longer paths first: whether a global status is reported depends on what is reported below. -/
theorem Accounts.mem_of_mem (margin : Nat) {A B : Account} (hA : Accounts A old new)
    (hB : Accounts B old new) {entry : Difference × Event}
    (hlong : old.height ≤ entry.1.path.length + margin) (h : entry ∈ A) : entry ∈ B := by
  induction margin generalizing A B entry with
  | zero =>
    obtain ⟨a, b, hcompared⟩ := ((hA.exact _ _).mp h).compared
    exact absurd (length_lt_height hcompared.at?.1) (Nat.not_lt.mpr hlong)
  | succ margin ih =>
    refine (hB.exact _ _).mpr ?_
    obtain ⟨diff, event⟩ := entry
    cases (hA.exact _ _).mp h with
    | own hcompared htold => exact .own hcompared htold
    | @moved path _ _ hcompared hfalls hrises hne honly =>
      refine .moved hcompared hfalls hrises hne fun other hother hbelow => ?_
      obtain ⟨diff', event'⟩ := other
      have hreported := (hB.exact _ _).mp hother
      cases hreported with
      | own h htold => exact honly _ ((hA.exact _ _).mpr (.own h htold)) hbelow
      | @moved path' _ _ _ _ _ _ _ =>
        obtain ⟨q, rfl⟩ := hbelow
        cases q with
        | nil => exact congrArg (Difference.mk · _) (List.append_nil path)
        | cons key q =>
          refine honly _ (ih hB hA ?_ hother) (List.prefix_append _ _)
          simp only [List.length_append, List.length_cons] at hlong ⊢
          omega

theorem Accounts.perm {A B : Account} (hA : Accounts A old new) (hB : Accounts B old new) :
    A.Perm B := by
  refine (List.perm_ext_iff_of_nodup hA.once.of_map hB.once.of_map).mpr fun entry => ?_
  exact ⟨hA.mem_of_mem old.height hB (Nat.le_add_left _ _),
    hB.mem_of_mem old.height hA (Nat.le_add_left _ _)⟩

/-! ## Silence -/

theorem Agree.not_told {old new : NodeInfo} (h : Agree old new) : ¬ Told old new aspect event := by
  intro htold
  cases htold with
  | fell hfalls => exact Bool.false_ne_true (hfalls.2.symm.trans (h.alive.symm.trans hfalls.1))
  | rose hrises => exact Bool.false_ne_true (hrises.1.symm.trans (h.alive.trans hrises.2))
  | altered _ hr hs hne => exact hne (h.statuses _ _ _ hr hs)
  | @vanished name _ halive hr hs =>
    have hnames := h.names halive name
    rw [hr, hs] at hnames
    cases hnames
  | @appeared name _ halive hr hs =>
    have hnames := h.names halive name
    rw [hr, hs] at hnames
    cases hnames

/-- Where nothing is reported, every pair that both trees have is compared. -/
theorem compared_of_silent (hsilent : ∀ diff event, ¬ Reported old new [] diff event)
    (ha : at? path old = some a) (hb : at? path new = some b) : Compared old new path a b := by
  induction path using List.reverseRecOn generalizing a b with
  | nil => exact compared_nil_iff.mpr ⟨(Option.some.inj ha).symm, (Option.some.inj hb).symm⟩
  | append_singleton path key ih =>
    rw [at?_append, Option.bind_eq_some_iff] at ha hb
    obtain ⟨a', ha', ha⟩ := ha
    obtain ⟨b', hb', hb⟩ := hb
    obtain ⟨c, hc, ha⟩ := at?_cons_eq_some.mp ha
    obtain ⟨d, hd, hb⟩ := at?_cons_eq_some.mp hb
    obtain rfl := Option.some.inj ha
    obtain rfl := Option.some.inj hb
    have hcompared := ih ha' hb'
    exact .child hcompared (fun hfalls => hsilent _ _ (.own hcompared (.fell hfalls))) hc hd

theorem agree_of_silent (hsilent : ∀ diff event, ¬ Reported old new [] diff event)
    (h : Compared old new path a b) : Agree a.toNodeInfo b.toNodeInfo := by
  have htold : ∀ aspect event, ¬ Told a.toNodeInfo b.toNodeInfo aspect event :=
    fun aspect event htold => hsilent _ _ (.own h htold)
  have hfalls : ¬ Falls a.toNodeInfo b.toNodeInfo := fun hfalls => htold _ _ (.fell hfalls)
  have hrises : ¬ Rises a.toNodeInfo b.toNodeInfo := fun hrises => htold _ _ (.rose hrises)
  refine ⟨?_, ?_, fun name r s hr hs => ?_, fun halive name => ?_⟩
  · rw [Falls, Rises] at *
    cases ha : a.isAlive <;> cases hb : b.isAlive <;> simp_all
  · by_contra hne
    exact hsilent _ _ (.moved h hfalls hrises hne fun _ he => absurd he List.not_mem_nil)
  · by_contra hne
    exact htold _ _ (.altered hfalls hr hs hne)
  · cases hr : a.localHost.reading? name with
    | some r =>
      cases hs : b.localHost.reading? name with
      | some s => rfl
      | none => exact absurd (.vanished halive hr hs) (htold _ _)
    | none =>
      cases hs : b.localHost.reading? name with
      | some s => exact absurd (.appeared halive hr hs) (htold _ _)
      | none => rfl

theorem diff_eq_nil_iff (hold : old.InOrder) (hto : old.Tabled) (htn : new.Tabled) :
    diff old new = [] ↔ ∀ path a b, at? path old = some a → at? path new = some b →
      Agree a.toNodeInfo b.toNodeInfo := by
  rw [← events_account, List.map_eq_nil_iff]
  have hmem := fun diff event => @mem_account_iff old new event hold hto htn diff
  constructor
  · intro hnil path a b ha hb
    have hsilent : ∀ diff event, ¬ Reported old new [] diff event := by
      intro diff event hreported
      rw [← hnil, ← hmem, hnil] at hreported
      exact List.not_mem_nil hreported
    exact agree_of_silent hsilent (compared_of_silent hsilent ha hb)
  · intro hagree
    refine List.eq_nil_iff_forall_not_mem.mpr fun entry he => ?_
    obtain ⟨diff, event⟩ := entry
    cases (hmem diff event).mp he with
    | own h htold => exact (hagree _ _ _ h.at?.1 h.at?.2).not_told htold
    | moved h _ _ hne _ => exact hne (hagree _ _ _ h.at?.1 h.at?.2).global

/-- The events of a comparison are the differences of the two trees, each of them once and
nothing else; this is so of one account of them, and of every one.  There are none exactly
if the trees agree at every path that both have.  The tables of the trees are in key order,
as all tables are. -/
theorem diff_accounted (hold : old.InOrder) (hto : old.Tabled) (htn : new.Tabled) :
    (∃ account, Accounts account old new ∧ account.map Prod.snd = diff old new) ∧
      (∀ account, Accounts account old new → (account.map Prod.snd).Perm (diff old new)) ∧
      (diff old new = [] ↔ ∀ path a b, at? path old = some a → at? path new = some b →
        Agree a.toNodeInfo b.toNodeInfo) := by
  have haccounts := accounts_account hold hto htn
  refine ⟨⟨_, haccounts, events_account old new⟩, fun account h => ?_,
    diff_eq_nil_iff hold hto htn⟩
  rw [← events_account]
  exact (h.perm haccounts).map Prod.snd

/-- A machine with readings of these names and statuses, and children. -/
def station (uuid : String) (readings : List (String × Int)) (children : List (String × Node)) :
    Node :=
  { machine uuid children with
    localHost := ⟨uuid, "", Status.ok,
      readings.map fun (name, status) => (name, Reading.plain name status 0 "" (.ofUnix 0))⟩ }

/-- Below `r` one machine will go down, one come up, and one lose a child that was worse. -/
def olderTree : Node :=
  station "r" [("disk", Status.ok), ("load", Status.ok)]
    [("a", station "a" [("cpu", Status.ok)] [("x", station "x" [("cpu", Status.ok)] [])]),
      ("b", { machine "b" [] with isAlive := false }),
      ("c", { machine "c" [("y", machine "y" [])] with globalStatus := Status.warning })]

def newerTree : Node :=
  station "r" [("load", Status.warning), ("swap", Status.ok)]
    [("a", { station "a" [("cpu", Status.warning)] [("x", station "x" [] [])] with
        isAlive := false }),
      ("b", machine "b" []), ("c", { machine "c" [] with globalStatus := Status.ok }),
      ("d", machine "d" [])]

/-- Of what is below `a`, which went down, nothing is told. -/
theorem olderTree_accounted :
    olderTree.InOrder ∧ olderTree.Tabled ∧ newerTree.Tabled ∧
      diff olderTree newerTree =
        [.probeRemoved "r" (Reading.plain "disk" Status.ok 0 "" (.ofUnix 0)),
          .statusChanged ⟨"r", some "load", Status.ok, Status.warning, "", ["load"]⟩,
          .probeAdded "r" (Reading.plain "swap" Status.ok 0 "" (.ofUnix 0)),
          .nodeDown "a" "a" "OK", .nodeUp "b" "b",
          .statusChanged ⟨"c", none, Status.warning, Status.ok, "OK", []⟩] ∧
      (∃ account, Accounts account olderTree newerTree ∧
        account.map Prod.snd = diff olderTree newerTree) ∧
      (∀ account, Accounts account olderTree newerTree →
        (account.map Prod.snd).Perm (diff olderTree newerTree)) ∧
      ¬ ∀ path a b, at? path olderTree = some a → at? path newerTree = some b →
        Agree a.toNodeInfo b.toNodeInfo := by
  have hold : olderTree.InOrder := by decide
  have hto : olderTree.Tabled := by decide
  have htn : newerTree.Tabled := by decide
  obtain ⟨hexists, hall, hsilent⟩ := diff_accounted hold hto htn
  exact ⟨hold, hto, htn, rfl, hexists, hall, fun h => nomatch hsilent.mpr h⟩

end Node
end FleetMesh
