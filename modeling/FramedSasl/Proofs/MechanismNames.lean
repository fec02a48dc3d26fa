import FramedSasl.Proofs.LoadedScenarios

/-! Mechanism lists that can be offered. The check of a scenario and the call on a server ask the
same of a list, and find the same fault at the same name: a list has to have names, none of them
empty and no two alike. A client chooses one name. -/

namespace FramedSasl

open Call

variable {seen before rest names : List Bytes} {name : Bytes}

/-! ### The first flaw -/

/-- Behind names without a flaw the search goes on, with them among those seen. -/
theorem nameFlawAfter?_append (h : nameFlawAfter? seen before = none) :
    nameFlawAfter? seen (before ++ rest) = nameFlawAfter? (before.reverse ++ seen) rest := by
  induction before generalizing seen with
  | nil => rfl
  | cons first before ih =>
    rw [nameFlawAfter?] at h
    split at h
    · cases h
    · next hnamed =>
      split at h
      · cases h
      · next hnew =>
        rw [List.cons_append, nameFlawAfter?, if_neg hnamed, if_neg hnew, ih h, List.reverse_cons,
          List.append_assoc]
        rfl

theorem nameFlawAfter?_eq_none :
    nameFlawAfter? seen names = none ↔ [] ∉ names ∧ names.Nodup ∧ ∀ name ∈ names, name ∉ seen := by
  induction names generalizing seen with
  | nil => simp [nameFlawAfter?]
  | cons first rest ih =>
    rw [nameFlawAfter?]
    split
    · next hempty => simp [hempty]
    · next hnamed =>
      split
      · next hseen => simp [hseen]
      · next hnew =>
        rw [ih]
        simp only [List.mem_cons, not_or, List.nodup_cons, forall_eq_or_imp]
        constructor
        · rintro ⟨hnamed', hdistinct, hunseen⟩
          exact ⟨⟨Ne.symm hnamed, hnamed'⟩, ⟨fun hmem => (hunseen first hmem).1 rfl, hdistinct⟩,
            hnew, fun name hmem => (hunseen name hmem).2⟩
        · rintro ⟨⟨-, hnamed'⟩, ⟨hfirst, hdistinct⟩, -, hunseen⟩
          refine ⟨hnamed', hdistinct, fun name hmem => ⟨?_, hunseen name hmem⟩⟩
          rintro rfl
          exact hfirst hmem

theorem nameFlaw?_eq_none : nameFlaw? names = none ↔ [] ∉ names ∧ names.Nodup := by
  rw [nameFlaw?, nameFlawAfter?_eq_none]
  simp

/-- `name` comes again, no name comes again before it, and no empty name comes before it. -/
def Repeats (names : List Bytes) (name : Bytes) : Prop :=
  ∃ before after, names = before ++ name :: after ∧ name ∈ before ∧ [] ∉ before ∧ before.Nodup

theorem exists_of_duplicate (h : nameFlawAfter? seen names = some (.duplicate name)) :
    ∃ before after, names = before ++ name :: after ∧ (name ∈ before ∨ name ∈ seen) ∧
      nameFlawAfter? seen before = none := by
  induction names generalizing seen with
  | nil => cases h
  | cons first rest ih =>
    rw [nameFlawAfter?] at h
    split at h
    · cases h
    · next hnamed =>
      split at h
      · next hseen =>
        cases h
        exact ⟨[], rest, rfl, .inr hseen, rfl⟩
      · next hnew =>
        obtain ⟨before, after, rfl, hmem, hbefore⟩ := ih h
        refine ⟨first :: before, after, rfl, ?_, ?_⟩
        · simpa [or_assoc, or_left_comm] using hmem
        · rw [nameFlawAfter?, if_neg hnamed, if_neg hnew, hbefore]

theorem nameFlaw?_eq_duplicate : nameFlaw? names = some (.duplicate name) ↔ Repeats names name := by
  constructor
  · intro h
    obtain ⟨before, after, hnames, hmem, hbefore⟩ := exists_of_duplicate h
    obtain ⟨hnamed, hdistinct⟩ := nameFlaw?_eq_none.1 hbefore
    exact ⟨before, after, hnames, by simpa using hmem, hnamed, hdistinct⟩
  · rintro ⟨before, after, rfl, hmem, hnamed, hdistinct⟩
    have hname : name ≠ [] := by
      rintro rfl
      exact hnamed hmem
    rw [nameFlaw?, nameFlawAfter?_append (nameFlaw?_eq_none.2 ⟨hnamed, hdistinct⟩),
      nameFlawAfter?, if_neg hname, if_pos (by simp [hmem])]

/-! ### Lists that can be offered -/

structure Offerable (names : List Bytes) : Prop where
  nonempty : names ≠ []
  named : [] ∉ names
  distinct : names.Nodup

theorem offerable_iff : Offerable names ↔ names ≠ [] ∧ nameFlaw? names = none := by
  rw [nameFlaw?_eq_none]
  exact ⟨fun h => ⟨h.nonempty, h.named, h.distinct⟩, fun h => ⟨h.1, h.2.1, h.2.2⟩⟩

/-- A check of a scenario and a call on a session that find the same. -/
inductive SameVerdict : Except ScenarioFault Unit → Except Fault Unit → Prop
  | accepted : SameVerdict (.ok ()) (.ok ())
  | none : SameVerdict (.error .noMechanisms) (.error (.session .noMechanisms))
  | empty : SameVerdict (.error .emptyMechanism) (.error (.session .emptyMechanism))
  | duplicate (name : Bytes) : SameVerdict (.error (.duplicateMechanism name))
      (.error (.session (.duplicateMechanism name)))

/-- A fault of the list of mechanisms. -/
inductive ScenarioFault.OfMechanisms : ScenarioFault → Prop
  | none : OfMechanisms .noMechanisms
  | empty : OfMechanisms .emptyMechanism
  | duplicate (name : Bytes) : OfMechanisms (.duplicateMechanism name)

namespace SameVerdict

variable {check : Except ScenarioFault Unit} {answer : Except Fault Unit}

theorem ok_iff (h : SameVerdict check answer) : answer = .ok () ↔ check = .ok () := by
  cases h <;> simp

theorem duplicate_iff (h : SameVerdict check answer) :
    answer = .error (.session (.duplicateMechanism name)) ↔
      check = .error (.duplicateMechanism name) := by
  cases h <;> simp

end SameVerdict

namespace Scenario

theorem checkMechanisms_eq_ok : checkMechanisms names = .ok () ↔ Offerable names := by
  rw [offerable_iff]
  refine ⟨checkMechanisms_ok, ?_⟩
  rintro ⟨hne, hflaw⟩
  rw [checkMechanisms, if_neg hne, hflaw]

theorem checkMechanisms_eq_duplicate :
    checkMechanisms names = .error (.duplicateMechanism name) ↔ Repeats names name := by
  rw [← nameFlaw?_eq_duplicate]
  unfold checkMechanisms
  split
  · next hnone => simp [hnone, nameFlaw?, nameFlawAfter?]
  · rcases nameFlaw? names with _ | _ | _ <;> simp

theorem checkMechanisms_error {fault : ScenarioFault} (h : checkMechanisms names = .error fault) :
    fault.OfMechanisms := by
  unfold checkMechanisms at h
  split at h
  · cases h
    exact .none
  · split at h
    · cases h
      exact .empty
    · cases h
      exact .duplicate _
    · cases h

/-- Where `load` fails, the mechanisms are not the reason. -/
def FailsElsewhere {α : Type} (load : Loading α) : Prop :=
  ∀ notes fault, (load.run notes).1 = .error fault → ¬ fault.OfMechanisms

namespace FailsElsewhere

variable {α β : Type} {load other : Loading α} {next : α → Loading β} {fault : ScenarioFault}

theorem pure (a : α) : FailsElsewhere (Pure.pure a : Loading α) := by
  intro notes fault h
  cases h

theorem throw (h : ¬ fault.OfMechanisms) : FailsElsewhere (throw fault : Loading α) := by
  intro notes fault' hrun
  cases hrun
  exact h

theorem note (level : Level) (line : Bytes) : FailsElsewhere (note level line) := by
  intro notes fault h
  cases h

theorem bind (h : FailsElsewhere load) (hnext : ∀ a, FailsElsewhere (next a)) :
    FailsElsewhere (load >>= next) := by
  intro notes fault hrun
  rw [Loading.run_bind] at hrun
  split at hrun
  · next a notes' _ => exact hnext a notes' fault hrun
  · next hload =>
    cases hrun
    exact h notes _ (congrArg Prod.fst hload)

theorem ite {condition : Prop} [Decidable condition] (h : FailsElsewhere load)
    (hother : FailsElsewhere other) :
    FailsElsewhere (if condition then load else other) := by
  split
  · exact h
  · exact hother

end FailsElsewhere

/-- Behind a right frame limit the check of the mechanisms alone decides about them. -/
theorem checkMechanisms_eq_error {s : Scenario} {fault : ScenarioFault} (notes : List Note)
    (hlimit : minimumLimit ≤ s.frameLimit) :
    checkMechanisms s.server.mechanisms = .error fault ↔
      fault.OfMechanisms ∧ ((check s).run notes).1 = .error fault := by
  unfold check
  rw [if_neg (Nat.not_lt.2 hlimit)]
  dsimp only
  rw [Loading.run_bind]
  rcases hmechanisms : checkMechanisms s.server.mechanisms with cause | ⟨⟩
  · refine ⟨fun h => ⟨?_, h⟩, fun h => h.2⟩
    cases h
    exact checkMechanisms_error hmechanisms
  · refine iff_of_false (fun h => by cases h) ?_
    rintro ⟨hfault, h⟩
    have hanswered : FailsElsewhere (if s.server.challenge.isSome ∧ s.client.response = none then
        MonadExcept.throw .challengeUnanswered else Pure.pure ()) := .ite (.throw nofun) (.pure ())
    refine FailsElsewhere.ite ?_ ?_ notes fault h hfault
    · exact .bind (.throw nofun) fun _ => .ite (.bind (.note _ _) fun _ => hanswered) hanswered
    · exact .ite (.bind (.note _ _) fun _ => hanswered) hanswered

end Scenario

namespace Session

variable {s : Session}

theorem sameVerdict_server (names : List Bytes) (hrole : s.role = some .server)
    (hunset : s.localMechanisms = []) :
    SameVerdict (Scenario.checkMechanisms names) (on s (setMechanisms names)).1 := by
  have hserver : ¬ (some Role.server = some Role.client ∧ names.length ≠ 1) := by simp
  simp only [setMechanisms, Scenario.checkMechanisms, on_get_bind, hrole, hunset]
  rw [if_neg (Option.some_ne_none Role.server), if_neg (not_not_intro rfl), if_neg hserver]
  split
  · exact .none
  · rcases nameFlaw? names with _ | _ | name
    · exact .accepted
    · exact .empty
    · exact .duplicate name

theorem setMechanisms_client (hrole : s.role = some .client) :
    (on s (setMechanisms names)).1 = .ok () ↔
      s.localMechanisms = [] ∧ ∃ name, name ≠ [] ∧ names = [name] := by
  constructor
  · intro h
    have hobeys := obey_cases hrole (.setMechanisms names)
    simp only [OwnerCall.run] at hobeys
    generalize on s (setMechanisms names) = answer at h hobeys
    cases hobeys with
    | refused _ _ => cases h
    | named _ hunset _ hnames hone =>
      obtain ⟨name, rfl⟩ := List.length_eq_one_iff.1 (hone rfl)
      exact ⟨hunset, name, hnames name List.mem_cons_self, rfl⟩
  · rintro ⟨hunset, name, hname, rfl⟩
    have hflaw : nameFlaw? [name] = none := by simp [nameFlaw?, nameFlawAfter?, hname]
    rw [on_setMechanisms hrole hunset (List.cons_ne_nil _ _) (fun _ => rfl) hflaw]

end Session

/-- A scenario and its server take the same lists, and name the same mechanism as the one that comes
twice. A client takes one name, once. -/
theorem Scenario.checkMechanisms_agrees (names : List Bytes) :
    (checkMechanisms names = .ok () ↔ Offerable names) ∧
    (∀ name, checkMechanisms names = .error (.duplicateMechanism name) ↔ Repeats names name) ∧
    (∀ (s : Scenario) (notes : List Note) (fault : ScenarioFault), s.server.mechanisms = names →
      minimumLimit ≤ s.frameLimit → (checkMechanisms names = .error fault ↔
        fault.OfMechanisms ∧ ((check s).run notes).1 = .error fault)) ∧
    (∀ s : Session, s.role = some .server → s.localMechanisms = [] →
      ((on s (Session.setMechanisms names)).1 = .ok () ↔ Offerable names) ∧
      ∀ name, (on s (Session.setMechanisms names)).1 =
        .error (.session (.duplicateMechanism name)) ↔ Repeats names name) ∧
    ∀ s : Session, s.role = some .client →
      ((on s (Session.setMechanisms names)).1 = .ok () ↔
        s.localMechanisms = [] ∧ ∃ name, name ≠ [] ∧ names = [name]) := by
  refine ⟨checkMechanisms_eq_ok, fun _ => checkMechanisms_eq_duplicate, ?_, ?_,
    fun _ => Session.setMechanisms_client⟩
  · rintro s notes fault rfl hlimit
    exact checkMechanisms_eq_error notes hlimit
  · intro s hrole hunset
    have hsame := Session.sameVerdict_server names hrole hunset
    exact ⟨hsame.ok_iff.trans checkMechanisms_eq_ok,
      fun _ => hsame.duplicate_iff.trans checkMechanisms_eq_duplicate⟩

/-- Of two faults the first is found: a name that comes again in front of an empty one. -/
theorem Scenario.checkMechanisms_agrees_repeated :
    let names := [text "PLAIN", text "ANONYMOUS", text "PLAIN", []]
    let server : Session := { role := some .server, phase := .configuring }
    let client : Session := { role := some .client, phase := .configuring }
    checkMechanisms names = .error (.duplicateMechanism (text "PLAIN")) ∧
      ((check { server := { mechanisms := names } }).run []).1 =
        .error (.duplicateMechanism (text "PLAIN")) ∧
      (on server (Session.setMechanisms names)).1 =
        .error (.session (.duplicateMechanism (text "PLAIN"))) ∧
      (on client (Session.setMechanisms names)).1 ≠ .ok () ∧
      (on client (Session.setMechanisms [text "PLAIN"])).1 = .ok () := by
  intro names server client
  have hrepeats : Repeats names (text "PLAIN") :=
    ⟨[text "PLAIN", text "ANONYMOUS"], [[]], rfl, by decide, by decide, by decide⟩
  obtain ⟨-, hcheck, hscenario, hserver, hclient⟩ := checkMechanisms_agrees names
  have hfault := (hcheck (text "PLAIN")).2 hrepeats
  refine ⟨hfault, ?_, ((hserver server rfl rfl).2 _).2 hrepeats, ?_, ?_⟩
  · exact ((hscenario _ [] _ rfl (Nat.le_refl _)).1 hfault).2
  · rintro h
    obtain ⟨-, name, -, hone⟩ := (hclient client rfl).1 h
    simp [names] at hone
  · exact ((checkMechanisms_agrees [text "PLAIN"]).2.2.2.2 client rfl).2
      ⟨rfl, text "PLAIN", by decide, rfl⟩

end FramedSasl
