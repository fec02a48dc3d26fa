import FramedSasl.Proofs.SessionRuns

/-! What a session sets once. Along a run the phase only goes forward; a role, mechanisms of either
side and an outcome stay once they are there, and so does the host name from the init on. Behind the
outcome the owner can receive what has come in, and nothing else happens. Every call `Keeps` this,
at a session that is `Settled`: there the guards of the calls know what has been set. -/

namespace FramedSasl

open Call

namespace Phase

/-- The phases in the order of an exchange. -/
def rank : Phase → Nat
  | unconfigured => 0
  | configuring => 1
  | mechanismExchange => 2
  | challengeResponse => 3
  | done => 4

theorem rank_le_of_after? {phase next : Phase} {kind : Kind} (h : phase.after? kind = some next) :
    phase.rank ≤ next.rank := by
  revert h
  cases phase <;> cases kind <;> cases next <;> decide

theorem ne_done_of_after? {phase next : Phase} {kind : Kind} (h : phase.after? kind = some next) :
    phase ≠ .done := by
  rintro rfl
  cases h

end Phase

namespace Place

variable {side : Role} {place next : Place} {kind : Kind}

theorem ne_finished_of_next? (h : place.next? side kind = some next) : place ≠ .finished := by
  rintro rfl
  cases kind <;> cases h

theorem opening_of_next? (h : place.next? side .mechanisms = some next) : place = .opening := by
  cases place <;> first | rfl | cases h

theorem finished_of_next? (h : place.next? side .outcome = some next) : next = .finished := by
  revert h
  cases side <;> cases place <;> cases next <;> decide

theorem initPassed_of_next? (h : place.next? side kind = some next)
    (hpassed : place.control.initPassed = true ∨ kind = .init) :
    next.control.initPassed = true := by
  revert h hpassed
  cases side <;> cases place <;> cases kind <;> cases next <;> decide

/-- Behind the init, whatever else has passed. -/
theorem initPassed_of_foldlM {word : List Kind} (h : word.foldlM (next? side) place = some next)
    (hpassed : place.control.initPassed = true ∨ .init ∈ word) :
    next.control.initPassed = true := by
  induction word generalizing place with
  | nil =>
    cases h
    exact hpassed.resolve_right List.not_mem_nil
  | cons kind word ih =>
    rw [List.foldlM_cons, Option.bind_eq_bind, Option.bind_eq_some_iff] at h
    obtain ⟨after, hleads, hrest⟩ := h
    refine ih hrest ?_
    rcases hpassed with hpassed | hmem
    · exact .inl (initPassed_of_next? hleads (.inl hpassed))
    · rcases List.mem_cons.1 hmem with hinit | hmem
      · exact .inl (initPassed_of_next? hleads (.inr hinit.symm))
      · exact .inr hmem

end Place

namespace Session

/-- What is set in `s` is still there in `s'`, and nothing has gone back. A call leaves most of it
as it is: only the rest has to be named. -/
structure Keeps (s s' : Session) : Prop where
  phase : s.phase.rank ≤ s'.phase.rank := by exact Nat.le_refl _
  role : s.role ≠ none → s'.role = s.role := by exact fun _ => rfl
  localMechanisms : s.localMechanisms ≠ [] → s'.localMechanisms = s.localMechanisms := by
    exact fun _ => rfl
  remoteMechanisms : s.remoteMechanisms ≠ [] → s'.remoteMechanisms = s.remoteMechanisms := by
    exact fun _ => rfl
  outcome : s.outcome ≠ .undecided → s'.outcome = s.outcome := by exact fun _ => rfl
  hostname : s.initPassed = true → s'.initPassed = true ∧ s'.hostname = s.hostname := by
    exact fun hinit => ⟨hinit, rfl⟩
  ended : s.phase = .done → ∃ n, s' = (s.receive n).2

variable {s s' : Session} {side : Role} {place : Place}

theorem receive_receive (s : Session) (n m : Nat) :
    ((s.receive n).2.receive m).2 = (s.receive (n + m)).2 := by
  simp only [receive, List.drop_drop]

theorem Keeps.received (s : Session) (n : Nat) : s.Keeps (s.receive n).2 where
  ended _ := ⟨n, rfl⟩

/-- A value that is kept once it is set, twice. -/
theorem kept_trans {α : Type} {unset first second third : α} (h : first ≠ unset → second = first)
    (h' : second ≠ unset → third = second) (hset : first ≠ unset) : third = first := by
  have hsame := h hset
  exact (h' (hsame ▸ hset)).trans hsame

theorem Keeps.refl (s : Session) : s.Keeps s := .received s 0

theorem Keeps.trans {s'' : Session} (h : s.Keeps s') (h' : s'.Keeps s'') : s.Keeps s'' where
  phase := Nat.le_trans h.phase h'.phase
  role := kept_trans h.role h'.role
  localMechanisms := kept_trans h.localMechanisms h'.localMechanisms
  remoteMechanisms := kept_trans h.remoteMechanisms h'.remoteMechanisms
  outcome := kept_trans h.outcome h'.outcome
  hostname hinit := by
    obtain ⟨hinit', hsame⟩ := h.hostname hinit
    obtain ⟨hinit'', hsame'⟩ := h'.hostname hinit'
    exact ⟨hinit'', hsame'.trans hsame⟩
  ended hdone := by
    obtain ⟨n, rfl⟩ := h.ended hdone
    obtain ⟨m, rfl⟩ := h'.ended hdone
    exact ⟨n + m, receive_receive s n m⟩

/-- A new session has set nothing. -/
theorem Keeps.of_new (s : Session) : Keeps {} s where
  phase := Nat.zero_le _
  role hset := absurd rfl hset
  localMechanisms hset := absurd rfl hset
  remoteMechanisms hset := absurd rfl hset
  outcome hset := absurd rfl hset
  hostname := nofun
  ended := nofun

/-- A session at a place, with what has been set by then. -/
structure Settled (side : Role) (s : Session) (place : Place) : Prop where
  stands : s.At side place
  named : s.localMechanisms = [] → place = .opening ∨ side = .client ∧ place = .offered
  chosen : side = .server → s.initPassed = false → s.remoteMechanisms = []
  told : side = .client → (s.outcome ≠ .undecided ↔ place = .finished)
  declared : side = .server → place = .finished → s.outcome ≠ .undecided

namespace Settled

theorem assigned (side : Role) :
    Settled side { role := some side, phase := .configuring } .opening where
  stands := At.assigned side
  named _ := .inl rfl
  chosen _ _ := rfl
  told _ := by simp
  declared _ hfinished := by cases hfinished

theorem decided_of_done (h : s.Settled side place) (hdone : s.phase = .done) :
    s.outcome ≠ .undecided := by
  have hfinished := h.stands.done_iff.1 hdone
  cases side with
  | client => exact (h.told rfl).2 hfinished
  | server => exact h.declared rfl hfinished

theorem named_of_init (h : s.Settled side place) (hinit : s.initPassed = true) :
    s.localMechanisms ≠ [] := by
  intro hnone
  have hpassed := h.stands.stands.initPassed
  rw [hinit] at hpassed
  rcases h.named hnone with rfl | ⟨-, rfl⟩ <;> cases hpassed

theorem init_of_done (h : s.Settled side place) (hdone : s.phase = .done) :
    s.initPassed = true := by
  rw [h.stands.stands.initPassed, h.stands.done_iff.1 hdone]
  rfl

/-! ### Calls of the owner -/

/-- Behind the end every call is refused but for the role that is there already. -/
theorem obeys_done (h : s.Settled side place) (hdone : s.phase = .done) (call : OwnerCall) :
    (∃ fault, on s call.run = (.error fault, s)) ∨
      (∃ requested, call = .assignRole requested) ∧ on s call.run = (.ok (), s) := by
  have hobeys := obey_cases h.stands.stands.role call
  have hinit := h.init_of_done hdone
  generalize on s call.run = answer at hobeys ⊢
  cases hobeys with
  | refused call fault => exact .inl ⟨fault, rfl⟩
  | sameRole requested => exact .inr ⟨⟨requested, rfl⟩, rfl⟩
  | named names hunset => exact absurd hunset (h.named_of_init hinit)
  | asked name _ hearly => cases hinit.symm.trans hearly
  | queued bytes _ hundecided => exact absurd hundecided (h.decided_of_done hdone)
  | declared outcome data _ hfirst => exact absurd hfirst (h.decided_of_done hdone)

theorem obeys (h : s.Settled side place) {call : OwnerCall} {result : Except Fault Unit}
    (hobeys : Obeys side s call (result, s')) : s'.Settled side place := by
  have hstands := h.stands.obeys hobeys
  cases hobeys with
  | refused | sameRole => exact h
  | named names _ hne =>
    exact ⟨hstands, fun hnone => absurd hnone hne, h.chosen, h.told, h.declared⟩
  | asked | queued => exact ⟨hstands, h.named, h.chosen, h.told, h.declared⟩
  | declared outcome data hserver _ hdecided =>
    cases data <;>
      exact ⟨hstands, h.named, h.chosen, fun hclient => (by cases hserver.symm.trans hclient),
        fun _ _ => hdecided⟩

theorem keeps_obeys (h : s.Settled side place) (call : OwnerCall) : s.Keeps (on s call.run).2 := by
  by_cases hdone : s.phase = .done
  · rcases h.obeys_done hdone call with ⟨fault, hrefused⟩ | ⟨-, hsame⟩
    · rw [hrefused]
      exact .refl s
    · rw [hsame]
      exact .refl s
  · have hearlier {s' : Session} : s.phase = .done → ∃ n, s' = (s.receive n).2 :=
      fun hend => absurd hend hdone
    have hobeys := obey_cases h.stands.stands.role call
    generalize on s call.run = answer at hobeys ⊢
    cases hobeys with
    | refused | sameRole => exact .refl s
    | named names hunset =>
      exact { localMechanisms := fun hset => absurd hunset hset, ended := hearlier }
    | asked name _ hunsent =>
      exact { hostname := fun hinit => (by cases hinit.symm.trans hunsent), ended := hearlier }
    | queued => exact { ended := hearlier }
    | declared outcome data _ hfirst =>
      cases data <;>
        exact { outcome := fun hset => absurd hfirst hset, ended := hearlier }

/-! ### Performatives -/

section Performatives

variable {p : Performative} {next : Place}

theorem keeps_sent (hdue : on s nextOutbound = (.ok (some p), s')) : s.Keeps s' := by
  obtain ⟨after, phase, hsends, hphase, rfl⟩ := sends_of_next hdue
  have hrank := Phase.rank_le_of_after? hphase
  have hearlier {s' : Session} : s.phase = .done → ∃ n, s' = (s.receive n).2 :=
    fun hend => absurd hend (Phase.ne_done_of_after? hphase)
  cases hsends with
  | mechanisms | challenge | response | outcome => exact { phase := hrank, ended := hearlier }
  | init => exact { phase := hrank, hostname := fun _ => ⟨rfl, rfl⟩, ended := hearlier }

theorem sent (h : s.Settled side place) (hdue : on s nextOutbound = (.ok (some p), s'))
    (hleads : place.next? side p.kind = some next) (hnext : s'.At side next) :
    s'.Settled side next := by
  have hgoing := Place.ne_finished_of_next? hleads
  obtain ⟨after, phase, hsends, -, rfl⟩ := sends_of_next hdue
  have hrole := h.stands.stands.role
  refine ⟨hnext, ?_, ?_, ?_, ?_⟩
  · intro hnone
    cases hsends with
    | mechanisms _ hset | init _ _ hset => exact absurd hnone hset
    | challenge | response | outcome =>
      rcases h.named hnone with rfl | ⟨rfl, rfl⟩ <;> cases hleads
  · intro hserver hearly
    cases hsends with
    | mechanisms | challenge | response | outcome => exact h.chosen hserver hearly
    | init => cases hearly
  · rintro rfl
    cases hsends with
    | mechanisms hserver | challenge _ hserver | outcome hserver => cases hserver.symm.trans hrole
    | init | response =>
      have hlater : next ≠ .finished := by
        rintro rfl
        cases Place.kind_of_finished hleads
      exact iff_of_false (fun hset => hgoing ((h.told rfl).1 hset)) hlater
  · rintro rfl rfl
    have hkind := Place.kind_of_finished hleads
    cases hsends with
    | outcome _ hdecided => exact hdecided
    | mechanisms | init | challenge | response => cases hkind

theorem keeps_accepted (h : s.Settled side place) (haccept : on s (accept p) = (.ok (), s'))
    (hleads : place.next? side p.kind = some next) : s.Keeps s' := by
  have hgoing := Place.ne_finished_of_next? hleads
  obtain ⟨after, phase, htakes, hphase, rfl⟩ := takesIn_of_accept haccept
  have hrank := Phase.rank_le_of_after? hphase
  have hearlier {s' : Session} : s.phase = .done → ∃ n, s' = (s.receive n).2 :=
    fun hend => absurd (h.stands.done_iff.1 hend) hgoing
  have hrole := h.stands.stands.role
  cases htakes with
  | mechanisms names hclient =>
    cases hclient.symm.trans hrole
    have hnone := (h.stands.offer rfl).2 (Place.opening_of_next? hleads)
    exact { phase := hrank, remoteMechanisms := fun hset => absurd hnone hset, ended := hearlier }
  | init mechanism data hostname hserver hunsent =>
    cases hserver.symm.trans hrole
    exact {
      phase := hrank
      remoteMechanisms := fun hset => absurd (h.chosen rfl hunsent) hset
      hostname := fun hinit => (by cases hinit.symm.trans hunsent)
      ended := hearlier }
  | challenge | response => exact { phase := hrank, ended := hearlier }
  | outcome code data hclient =>
    cases hclient.symm.trans hrole
    exact {
      phase := hrank
      outcome := fun hset => absurd ((h.told rfl).1 hset) hgoing
      ended := hearlier }

theorem accepted (h : s.Settled side place) (hdecided : p.Decided)
    (haccept : on s (accept p) = (.ok (), s'))
    (hleads : place.next? side p.kind = some next) (hnext : s'.At side next) :
    s'.Settled side next := by
  have hgoing := Place.ne_finished_of_next? hleads
  obtain ⟨after, phase, htakes, -, rfl⟩ := takesIn_of_accept haccept
  have hrole := h.stands.stands.role
  refine ⟨hnext, ?_, ?_, ?_, ?_⟩
  · intro hnone
    cases htakes with
    | mechanisms names hclient =>
      cases hclient.symm.trans hrole
      cases Place.opening_of_next? hleads
      cases hleads
      exact .inr ⟨rfl, rfl⟩
    | init _ _ _ hserver =>
      rcases h.named hnone with rfl | ⟨rfl, -⟩
      · cases hleads
      · cases hserver.symm.trans hrole
    | challenge | response | outcome =>
      rcases h.named hnone with rfl | ⟨rfl, rfl⟩ <;> cases hleads
  · rintro rfl hearly
    cases htakes with
    | mechanisms _ hclient => cases hclient.symm.trans hrole
    | init => cases hearly
    | challenge | response | outcome => exact h.chosen rfl hearly
  · rintro rfl
    have hundecided := fun hset => hgoing ((h.told rfl).1 hset)
    have hlater : p.kind ≠ .outcome → next ≠ .finished := by
      rintro hkind rfl
      exact hkind (Place.kind_of_finished hleads)
    cases htakes with
    | mechanisms | challenge => exact iff_of_false hundecided (hlater nofun)
    | init _ _ _ hserver | response _ hserver => cases hserver.symm.trans hrole
    | outcome => exact iff_of_true hdecided (Place.finished_of_next? hleads)
  · rintro rfl rfl
    have hkind := Place.kind_of_finished hleads
    cases htakes with
    | outcome _ _ hclient => cases hclient.symm.trans hrole
    | mechanisms | init | challenge | response => cases hkind

end Performatives

/-- Every call keeps what has been set, and leaves a session that is settled. -/
theorem perform (h : s.Settled side place) (act : Act)
    (hdecided : ∀ p, act = .accept p → p.Decided) :
    s.Keeps (s.perform act).1 ∧ ∃ next, (s.perform act).1.Settled side next := by
  cases act with
  | call call =>
    have hkeeps := h.keeps_obeys call
    have hobeys := obey_cases h.stands.stands.role call
    rcases hcall : on s call.run with ⟨fault | _, s'⟩ <;> rw [hcall] at hkeeps hobeys <;>
      simpa only [Session.perform, hcall] using ⟨hkeeps, place, h.obeys hobeys⟩
  | receive n =>
    exact ⟨.received s n, place, h.stands.receive n, h.named, h.chosen, h.told, h.declared⟩
  | next =>
    rcases h.stands.emits with hrests | ⟨p, s', next, hemits, hleads, hnext⟩
    · simpa only [Session.perform, hrests] using ⟨Keeps.refl s, place, h⟩
    · simpa only [Session.perform, hemits.due] using
        ⟨keeps_sent hemits.due, next, h.sent hemits.due hleads hnext⟩
  | accept p =>
    rcases haccept : on s (accept p) with ⟨fault | _, s'⟩
    · cases atomic_accept _ _ _ _ haccept
      simpa only [Session.perform, haccept] using ⟨Keeps.refl s, place, h⟩
    · obtain ⟨hsender, ⟨next, hleads⟩, hcontent⟩ := h.stands.of_accepts haccept
      obtain ⟨after, haccepts, hnext⟩ := h.stands.accepts hsender hleads hcontent
      cases haccept.symm.trans haccepts.accepted
      simpa only [Session.perform, haccept] using ⟨h.keeps_accepted haccept hleads, next,
        h.accepted (hdecided p rfl) haccept hleads hnext⟩

/-- Behind the end, what a call leaves is what receiving leaves. -/
theorem perform_done (h : s.Settled side place) (hdone : s.phase = .done) (act : Act) :
    (s.perform act).1 = s ∨ ∃ n, act = .receive n := by
  cases act with
  | call call =>
    rcases h.obeys_done hdone call with ⟨fault, hrefused⟩ | ⟨-, hsame⟩
    · exact .inl (by simp only [Session.perform, hrefused])
    · exact .inl (by simp only [Session.perform, hsame])
  | receive n => exact .inr ⟨n, rfl⟩
  | next => exact .inl (by simp only [Session.perform, rests_done h.stands.stands.role hdone])
  | accept p =>
    obtain ⟨fault, hrefused⟩ := accept_done hdone p
    exact .inl (by simp only [Session.perform, hrefused])

end Settled

end Session

open Session

namespace History

variable {r : History} {side : Role} {place : Place}

theorem settled_foldl (h : r.session.Settled side place) (acts : List Act)
    (hdecided : ∀ p, .accept p ∈ acts → p.Decided) :
    r.session.Keeps (acts.foldl History.perform r).session ∧
      ∃ next, (acts.foldl History.perform r).session.Settled side next := by
  induction acts generalizing r place with
  | nil => exact ⟨.refl _, place, h⟩
  | cons act acts ih =>
    obtain ⟨hkeeps, next, hnext⟩ := h.perform act fun p hact =>
      hdecided p (hact ▸ List.mem_cons_self)
    obtain ⟨hrest, hlast⟩ := ih (r := r.perform act) hnext fun p hmem =>
      hdecided p (List.mem_cons_of_mem _ hmem)
    exact ⟨hkeeps.trans hrest, hlast⟩

theorem run_settled (acts : List Act) (hdecided : ∀ p, .accept p ∈ acts → p.Decided) :
    run acts = {} ∨ ∃ side place, (run acts).session.Settled side place := by
  induction acts with
  | nil => exact .inl rfl
  | cons act acts ih =>
    have hrest : ∀ p, .accept p ∈ acts → p.Decided :=
      fun p hmem => hdecided p (List.mem_cons_of_mem _ hmem)
    rw [run, List.foldl_cons]
    rcases perform_unassigned act with hsame | ⟨side, hassigned⟩
    · have hstill : History.perform {} act = {} := by simp [History.perform, hsame]
      rw [hstill]
      exact ih hrest
    · have hsettled : (History.perform {} act).session.Settled side .opening := by
        simpa [History.perform, hassigned] using .assigned side
      exact .inr ⟨side, (settled_foldl hsettled acts hrest).2⟩

theorem run_keeps (acts more : List Act) (hdecided : ∀ p, .accept p ∈ acts ++ more → p.Decided) :
    (run acts).session.Keeps (run (acts ++ more)).session := by
  rw [run, run, List.foldl_append]
  rcases run_settled acts fun p hmem => hdecided p (List.mem_append_left _ hmem) with
    hnew | ⟨side, place, hsettled⟩
  · rw [run] at hnew
    rw [hnew]
    exact .of_new _
  · exact (settled_foldl hsettled more fun p hmem => hdecided p (List.mem_append_right _ hmem)).1

theorem Stands.initPassed_of_mem (h : r.Stands side place) (hinit : .init ∈ r.word) :
    r.session.initPassed = true := by
  rw [h.session.stands.initPassed]
  exact Place.initPassed_of_foldlM h.word (.inr hinit)

theorem run_initPassed {acts : List Act} (hinit : .init ∈ (run acts).word) :
    (run acts).session.initPassed = true := by
  rcases run_stands acts with hnew | ⟨side, place, hstands⟩
  · rw [hnew] at hinit
    exact absurd hinit List.not_mem_nil
  · exact hstands.initPassed_of_mem hinit

/-- At any time of a run and at any later time, with any calls and any performatives of the peer
whose outcomes are decided ones. The phase has not gone back, and a role, mechanisms and an outcome
that were set are what they were; so is the host name once the init has passed, either way. A client
has an outcome exactly at the end, a server has one there. At the end nothing is due, and no
performative, payload or verdict is taken; what changes is that the owner receives from the front of
what has come in, and that is all there is from then on. -/
theorem run_sets_once (acts more : List Act)
    (hcodes : ∀ p, .accept p ∈ acts ++ more → p.Decided) :
    let s := (run acts).session
    let s' := (run (acts ++ more)).session
    s.phase.rank ≤ s'.phase.rank ∧
      (s.role ≠ none → s'.role = s.role) ∧
      (s.localMechanisms ≠ [] → s'.localMechanisms = s.localMechanisms) ∧
      (s.remoteMechanisms ≠ [] → s'.remoteMechanisms = s.remoteMechanisms) ∧
      (s.outcome ≠ .undecided → s'.outcome = s.outcome) ∧
      (.init ∈ (run acts).word → s'.hostname = s.hostname) ∧
      (s.role = some .client → (s.outcome ≠ .undecided ↔ s.phase = .done)) ∧
      (s.phase = .done →
        s.outcome ≠ .undecided ∧
        on s nextOutbound = (.ok none, s) ∧
        (∀ p, ∃ fault, on s (accept p) = (.error fault, s)) ∧
        (∀ data, ∃ fault, on s (send data) = (.error fault, s)) ∧
        (∀ outcome data, ∃ fault, on s (declare outcome data) = (.error fault, s)) ∧
        (∀ act, (s.perform act).1 = s ∨ ∃ n, act = .receive n) ∧
        ∃ n, s' = { s with inbound := s.inbound.drop n }) := by
  intro s s'
  have hkeeps : s.Keeps s' := run_keeps acts more hcodes
  refine ⟨hkeeps.phase, hkeeps.role, hkeeps.localMechanisms, hkeeps.remoteMechanisms,
    hkeeps.outcome, fun hinit => (hkeeps.hostname (run_initPassed hinit)).2, ?_⟩
  rcases run_settled acts fun p hmem => hcodes p (List.mem_append_left _ hmem) with
    hnew | ⟨side, place, hsettled⟩
  · have hs : s = {} := congrArg History.session hnew
    simp [hs]
  · have hsettled : s.Settled side place := hsettled
    have hrole := hsettled.stands.stands.role
    refine ⟨fun hclient => ?_, fun hdone => ?_⟩
    · cases hclient.symm.trans hrole
      exact (hsettled.told rfl).trans hsettled.stands.done_iff.symm
    · have hrefuses (call : OwnerCall) (hcall : ∀ requested, call ≠ .assignRole requested) :
          ∃ fault, on s call.run = (.error fault, s) :=
        (hsettled.obeys_done hdone call).resolve_right fun ⟨⟨requested, hsame⟩, _⟩ =>
          hcall requested hsame
      exact ⟨hsettled.decided_of_done hdone, rests_done hrole hdone, accept_done hdone,
        fun data => hrefuses (.send data) nofun,
        fun outcome data => hrefuses (.declare outcome data) nofun,
        hsettled.perform_done hdone, hkeeps.ended hdone⟩

/-- A client that has been told its outcome, and what still happens to it. -/
theorem run_sets_once_told :
    let acts : List Act := [.call (.assignRole (some .client)), .call (.setMechanisms [[0x41]]),
      .accept (.mechanisms [[0x41], [0x42]]), .next, .accept (.outcome .auth (some [7, 8, 9]))]
    let more : List Act := [.accept (.outcome .ok none), .receive 2, .call (.send [1])]
    (∀ p, .accept p ∈ acts ++ more → p.Decided) ∧
      (run acts).word = [.mechanisms, .init, .outcome] ∧
      (run (acts ++ more)).session.outcome = .auth ∧
      ∃ n, (run (acts ++ more)).session =
        { (run acts).session with inbound := (run acts).session.inbound.drop n } := by
  intro acts more
  have hcodes : ∀ p, .accept p ∈ acts ++ more → p.Decided := by
    simp [acts, more, Performative.Decided]
  obtain ⟨-, -, -, -, houtcome, -, -, hdone⟩ := run_sets_once acts more hcodes
  obtain ⟨-, -, -, -, -, -, hended⟩ := hdone rfl
  exact ⟨hcodes, rfl, houtcome (by decide), hended⟩

end History

end FramedSasl
