import FramedSasl.Proofs.Places

/-! Calls on a session in any order, of its owner and of what carries its performatives, and the
history of those that went well. `At.performs` has all that one call can do behind the choice of a
role; a whole run stays on the path of `Place.next?` (`run_stands`). -/

namespace FramedSasl

open Call

/-- Where a list with one more at its end is split: at the last, or before it. -/
theorem split_concat {α : Type} {items front back : List α} {last item : α}
    (h : items ++ [last] = front ++ item :: back) :
    items = front ∧ last = item ∧ back = [] ∨
      ∃ back', back = back' ++ [last] ∧ items = front ++ item :: back' := by
  rcases List.eq_nil_or_concat back with rfl | ⟨back', last', rfl⟩
  · obtain ⟨rfl, hlast⟩ := List.append_inj' h rfl
    exact .inl ⟨rfl, List.singleton_inj.1 hlast, rfl⟩
  · rw [List.concat_eq_append, ← List.cons_append, ← List.append_assoc] at h
    obtain ⟨hitems, hlast⟩ := List.append_inj' h rfl
    exact .inr ⟨back', by rw [List.concat_eq_append, hlast], hitems⟩

namespace Session

inductive Act where
  | call (call : OwnerCall)
  | receive (n : Nat)
  | next
  | accept (p : Performative)

/-- What a call that went well was, and the performative that passed in it. -/
inductive Deed where
  | obeyed (call : OwnerCall)
  | sent (p : Performative)
  | accepted (p : Performative)

namespace Deed

def passed? : Deed → Option Performative
  | obeyed _ => none
  | sent p | accepted p => some p

/-- The verdict that the owner declared. -/
def declared? : Deed → Option Outcome
  | obeyed (.declare outcome _) => some outcome
  | _ => none

/-- Each performative goes the way of its kind. -/
def Directed (side : Role) : Deed → Prop
  | obeyed _ => True
  | sent p => p.kind.sender = side
  | accepted p => p.kind.sender ≠ side

end Deed

/-- One call: the session behind it and what goes into its history. -/
def perform (s : Session) : Act → Session × List Deed
  | .call call =>
    match on s call.run with
    | (.error _, s') => (s', [])
    | (.ok (), s') => (s', [.obeyed call])
  | .receive n => ((s.receive n).2, [])
  | .next =>
    match on s nextOutbound with
    | (.ok (some p), s') => (s', [.sent p])
    | (_, s') => (s', [])
  | .accept p =>
    match on s (accept p) with
    | (.error _, s') => (s', [])
    | (.ok (), s') => (s', [.accepted p])

/-- All that one call can do to a session at a place. -/
inductive Performs (side : Role) (s : Session) (place : Place) : Session × List Deed → Prop
  | rests {s' : Session} (stays : s'.At side place) (outcome : s'.outcome = s.outcome) :
      Performs side s place (s', [])
  | obeyed {call : OwnerCall} {s' : Session} (stays : s'.At side place)
      (undeclared : Deed.declared? (.obeyed call) = none) (outcome : s'.outcome = s.outcome) :
      Performs side s place (s', [.obeyed call])
  | declared {data : Option Bytes} {s' : Session} (stays : s'.At side place)
      (server : side = .server) (first : s.outcome = .undecided)
      (decided : s'.outcome ≠ .undecided) :
      Performs side s place (s', [.obeyed (.declare s'.outcome data)])
  | sent {p : Performative} {next : Place} {s' : Session} (emits : Emits side s p s')
      (leads : place.next? side p.kind = some next) (stands : s'.At side next) :
      Performs side s place (s', [.sent p])
  | accepted {p : Performative} {next : Place} {s' : Session} (accepts : Accepts s p s')
      (sender : p.kind.sender ≠ side) (leads : place.next? side p.kind = some next)
      (stands : s'.At side next) : Performs side s place (s', [.accepted p])

variable {s : Session} {side : Role} {place : Place}

/-- Nothing that a server takes in decides the outcome. -/
theorem Accepts.outcome_of_server {s' : Session} {p : Performative} (h : Accepts s p s')
    (hsender : p.kind.sender ≠ .server) : s'.outcome = s.outcome := by
  rw [h.outcome]
  cases p with
  | mechanisms | init | challenge | response => rfl
  | outcome => exact absurd rfl hsender

theorem At.performs_call (h : s.At side place) (call : OwnerCall) :
    s.Performs side place (s.perform (.call call)) := by
  have hobeys := obey_cases h.stands.role call
  simp only [perform]
  generalize on s call.run = answer at hobeys ⊢
  obtain ⟨result, s'⟩ := answer
  have hplace := h.obeys hobeys
  cases hobeys with
  | refused => exact .rests hplace rfl
  | sameRole | named | asked | queued => exact .obeyed hplace rfl rfl
  | declared outcome data hserver hfirst hdecided =>
    cases data <;> exact .declared hplace hserver hfirst hdecided

theorem At.performs_next (h : s.At side place) : s.Performs side place (s.perform .next) := by
  rcases h.emits with hrests | ⟨p, s', next, hemits, hleads, hnext⟩
  · simpa only [perform, hrests] using .rests h rfl
  · simpa only [perform, hemits.due] using .sent hemits hleads hnext

theorem At.performs_accept (h : s.At side place) (p : Performative) :
    s.Performs side place (s.perform (.accept p)) := by
  rcases haccept : on s (accept p) with ⟨fault | _, s'⟩
  · obtain ⟨-, rfl⟩ := accept_error h.stands.role haccept
    simpa only [perform, haccept] using .rests h rfl
  · obtain ⟨hsender, ⟨next, hleads⟩, hcontent⟩ := h.of_accepts haccept
    obtain ⟨after, haccepts, hnext⟩ := h.accepts hsender hleads hcontent
    simpa only [perform, haccepts.accepted] using .accepted haccepts hsender hleads hnext

theorem At.performs (h : s.At side place) (act : Act) :
    s.Performs side place (s.perform act) := by
  cases act with
  | call call => exact h.performs_call call
  | receive n => exact .rests (h.receive n) rfl
  | next => exact h.performs_next
  | accept p => exact h.performs_accept p

theorem At.perform (h : s.At side place) (act : Act) : ∃ next, (s.perform act).1.At side next := by
  have hperforms := h.performs act
  generalize s.perform act = answer at hperforms ⊢
  cases hperforms with
  | rests hs | obeyed hs | declared hs => exact ⟨place, hs⟩
  | sent _ _ hs | accepted _ _ _ hs => exact ⟨_, hs⟩

/-- Without a role, all that goes well is to choose one. -/
theorem perform_unassigned (act : Act) :
    perform {} act = ({}, []) ∨ ∃ side : Role,
      perform {} act = ({ role := some side, phase := .configuring },
        [.obeyed (.assignRole (some side))]) := by
  cases act with
  | call call =>
    cases call with
    | assignRole requested =>
      cases requested with
      | none => exact .inl rfl
      | some side => exact .inr ⟨side, rfl⟩
    | setMechanisms | setHostname | send | declare => exact .inl rfl
  | receive n => exact .inl (by simp [perform, receive])
  | next => exact .inl rfl
  | accept p => exact .inl rfl

end Session

open Session

/-- A session and all that went well on it, in order. -/
structure History where
  session : Session := {}
  deeds : List Deed := []

namespace History

def perform (r : History) (act : Act) : History :=
  ⟨(r.session.perform act).1, r.deeds ++ (r.session.perform act).2⟩

/-- What a new session leads to. -/
def run (acts : List Act) : History := acts.foldl perform {}

/-- The kinds of the performatives that passed, either way. -/
def word (r : History) : List Kind := (r.deeds.filterMap Deed.passed?).map Performative.kind

/-- The outcomes that the owner declared. -/
def verdicts (r : History) : List Outcome := r.deeds.filterMap Deed.declared?

@[simp] theorem word_concat (r : History) (s : Session) (deed : Deed) :
    word ⟨s, r.deeds ++ [deed]⟩ = r.word ++ (deed.passed?.map Performative.kind).toList := by
  cases hpassed : deed.passed? <;> simp [word, hpassed]

@[simp] theorem verdicts_concat (r : History) (s : Session) (deed : Deed) :
    verdicts ⟨s, r.deeds ++ [deed]⟩ = r.verdicts ++ deed.declared?.toList := by
  cases hdeclared : deed.declared? <;> simp [verdicts, hdeclared]

/-- What the history tells of a session that has a role. -/
structure Stands (r : History) (side : Role) (place : Place) : Prop where
  session : r.session.At side place
  word : r.word.foldlM (Place.next? side) .opening = some place
  directed : ∀ deed ∈ r.deeds, deed.Directed side
  client : side = .client → r.verdicts = []
  server : side = .server →
    r.verdicts = if r.session.outcome = .undecided then [] else [r.session.outcome]
  told : side = .server → ∀ code data, .sent (.outcome code data) ∈ r.deeds →
    code = r.session.outcome ∧ code ≠ .undecided

variable {r : History} {side : Role} {place : Place}

theorem Stands.assigned (side : Role) :
    Stands ⟨{ role := some side, phase := .configuring }, [.obeyed (.assignRole (some side))]⟩
      side .opening where
  session := At.assigned side
  word := rfl
  directed := by simp [Deed.Directed]
  client _ := rfl
  server _ := rfl
  told _ _ _ hmem := by simp at hmem

theorem Stands.rests (h : r.Stands side place) {s : Session} (hs : s.At side place)
    (houtcome : s.outcome = r.session.outcome) : Stands ⟨s, r.deeds⟩ side place where
  session := hs
  word := h.word
  directed := h.directed
  client := h.client
  server hside := by
    rw [houtcome]
    exact h.server hside
  told hside := by simpa only [houtcome] using h.told hside

theorem Stands.obeyed (h : r.Stands side place) {s : Session} {call : OwnerCall}
    (hs : s.At side place) (hundeclared : Deed.declared? (.obeyed call) = none)
    (houtcome : s.outcome = r.session.outcome) :
    Stands ⟨s, r.deeds ++ [.obeyed call]⟩ side place where
  session := hs
  word := by simpa [Deed.passed?] using h.word
  directed := by simpa [or_imp, forall_and, Deed.Directed] using h.directed
  client hside := by simpa [hundeclared] using h.client hside
  server hside := by simpa [hundeclared, houtcome] using h.server hside
  told hside := by simpa [houtcome] using h.told hside

theorem Stands.declared (h : r.Stands side place) {s : Session} {data : Option Bytes}
    (hs : s.At side place) (hserver : side = .server) (hfirst : r.session.outcome = .undecided)
    (hdecided : s.outcome ≠ .undecided) :
    Stands ⟨s, r.deeds ++ [.obeyed (.declare s.outcome data)]⟩ side place where
  session := hs
  word := by simpa [Deed.passed?] using h.word
  directed := by simpa [or_imp, forall_and, Deed.Directed] using h.directed
  client hside := by simp [hserver] at hside
  server _ := by simpa [Deed.declared?, hfirst, hdecided] using h.server hserver
  told _ code data hmem := by
    -- an outcome is sent only once it has been declared
    obtain ⟨hcode, hne⟩ := h.told hserver code data (by simpa using hmem)
    exact absurd (hcode.trans hfirst) hne

theorem Stands.sent (h : r.Stands side place) {s : Session} {p : Performative} {next : Place}
    (hemits : Emits side r.session p s) (hleads : place.next? side p.kind = some next)
    (hs : s.At side next) : Stands ⟨s, r.deeds ++ [.sent p]⟩ side next where
  session := hs
  word := by simp [Deed.passed?, List.foldlM_append, h.word, hleads]
  directed := by simpa [or_imp, forall_and, Deed.Directed, hemits.sender] using h.directed
  client hside := by simpa [Deed.declared?] using h.client hside
  server hside := by simpa [Deed.declared?, hemits.outcome] using h.server hside
  told hside code data hmem := by
    simp only [hemits.outcome]
    rcases List.mem_append.1 hmem with hmem | hmem
    · exact h.told hside code data hmem
    · simp only [List.mem_singleton, Deed.sent.injEq] at hmem
      subst hmem
      exact ⟨hemits.told code rfl, hemits.decided⟩

theorem Stands.accepted (h : r.Stands side place) {s : Session} {p : Performative} {next : Place}
    (haccepts : Accepts r.session p s) (hsender : p.kind.sender ≠ side)
    (hleads : place.next? side p.kind = some next) (hs : s.At side next) :
    Stands ⟨s, r.deeds ++ [.accepted p]⟩ side next where
  session := hs
  word := by simp [Deed.passed?, List.foldlM_append, h.word, hleads]
  directed := by simpa [or_imp, forall_and, Deed.Directed, hsender] using h.directed
  client hside := by simpa [Deed.declared?] using h.client hside
  server hside := by
    simpa [Deed.declared?, haccepts.outcome_of_server (hside ▸ hsender)] using h.server hside
  told hside := by
    simpa [haccepts.outcome_of_server (hside ▸ hsender)] using h.told hside

/-- One call keeps what the history tells, at this place or at the next. -/
theorem Stands.perform (h : r.Stands side place) (act : Act) :
    ∃ next, (r.perform act).Stands side next := by
  have hperforms := h.session.performs act
  rw [History.perform]
  generalize r.session.perform act = answer at hperforms ⊢
  cases hperforms with
  | rests hs houtcome => exact ⟨place, by simpa using h.rests hs houtcome⟩
  | obeyed hs hundeclared houtcome => exact ⟨place, h.obeyed hs hundeclared houtcome⟩
  | declared hs hserver hfirst hdecided => exact ⟨place, h.declared hs hserver hfirst hdecided⟩
  | sent hemits hleads hs => exact ⟨_, h.sent hemits hleads hs⟩
  | accepted haccepts hsender hleads hs => exact ⟨_, h.accepted haccepts hsender hleads hs⟩

theorem Stands.foldl (h : r.Stands side place) (acts : List Act) :
    ∃ next, (acts.foldl History.perform r).Stands side next := by
  induction acts generalizing r place with
  | nil => exact ⟨place, h⟩
  | cons act acts ih =>
    obtain ⟨next, hnext⟩ := h.perform act
    exact ih hnext

/-- The history is empty until the session has a role, and then tells how it came where it is. -/
theorem run_stands (acts : List Act) :
    run acts = {} ∨ ∃ side place, (run acts).Stands side place := by
  induction acts with
  | nil => exact .inl rfl
  | cons act acts ih =>
    rw [run, List.foldl_cons]
    rcases perform_unassigned act with hsame | ⟨side, hassigned⟩
    · have hstill : History.perform {} act = {} := by simp [History.perform, hsame]
      rw [hstill]
      exact ih
    · have hstands : (History.perform {} act).Stands side .opening := by
        simpa [History.perform, hassigned] using .assigned side
      exact .inr ⟨side, hstands.foldl acts⟩

end History

end FramedSasl
