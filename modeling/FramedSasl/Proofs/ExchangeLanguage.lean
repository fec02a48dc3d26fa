import FramedSasl.Proofs.SessionRuns
import Mathlib.Computability.RegularExpressions

/-! The language of an exchange. Whatever its owner and its peer do, the kinds of the performatives
that a session sends and takes in begin a word of `exchange`, and it takes in exactly what goes on
with such a word. `Place.next?` is the automaton: what may lie ahead of a place is `Place.ahead`. -/

namespace FramedSasl

open Call RegularExpression

/-- Challenges, each with its response. -/
def rounds : RegularExpression Kind := (char Kind.challenge * char Kind.response).star

/-- A client may see the outcome in place of the last response. -/
def ending : Role → RegularExpression Kind
  | .server => char Kind.outcome
  | .client => (1 + char Kind.challenge) * char Kind.outcome

/-- The kinds of a whole exchange, as one side sees them pass. -/
def exchange (side : Role) : RegularExpression Kind :=
  char Kind.mechanisms * (char Kind.init * (rounds * ending side))

/-- `word` is a prefix of a whole exchange. -/
def Begins (side : Role) (word : List Kind) : Prop :=
  ∃ rest, word ++ rest ∈ (exchange side).matches'

namespace Place

/-- What may still pass. -/
def ahead (side : Role) : Place → RegularExpression Kind
  | opening => exchange side
  | offered => char Kind.init * (rounds * ending side)
  | chosen | answered => rounds * ending side
  | challenged =>
    match side with
    | .server => char Kind.response * (rounds * ending .server)
    | .client => char Kind.outcome + char Kind.response * (rounds * ending .client)
  | finished => 1

/-- Another round, or the end. -/
theorem matches_rounds (side : Role) : (rounds * ending side).matches' =
    (char Kind.outcome + char Kind.challenge * ahead side challenged).matches' := by
  have hrounds : rounds.matches' =
      1 + (char Kind.challenge).matches' * (char Kind.response).matches' * rounds.matches' := by
    simp only [rounds, matches'_star, matches'_mul, Language.one_add_self_mul_kstar_eq_kstar]
  rw [matches'_mul, hrounds]
  cases side with
  | server => simp only [ahead, ending, matches'_add, matches'_mul, add_mul, one_mul, mul_assoc]
  | client =>
    simp only [ahead, ending, matches'_add, matches'_mul, matches'_epsilon, add_mul, mul_add,
      one_mul, mul_assoc, add_assoc]
    exact congrArg _ (add_left_comm _ _ _)

theorem cons_mem_char_mul {kind first : Kind} {word : List Kind} {p : RegularExpression Kind} :
    kind :: word ∈ (char first * p).matches' ↔ kind = first ∧ word ∈ p.matches' := by
  rw [matches'_mul, matches'_char, Language.mem_mul]
  constructor
  · rintro ⟨front, rfl, rest, hrest, heq⟩
    obtain ⟨rfl, rfl⟩ := List.cons.inj heq
    exact ⟨rfl, hrest⟩
  · rintro ⟨rfl, hword⟩
    exact ⟨[kind], rfl, word, hword, rfl⟩

theorem cons_mem_char {kind first : Kind} {word : List Kind} :
    kind :: word ∈ (char first).matches' ↔ kind = first ∧ word = [] := by
  rw [matches'_char]
  exact List.cons_eq_cons

theorem cons_mem_rounds {side : Role} {kind : Kind} {word : List Kind} :
    kind :: word ∈ (rounds * ending side).matches' ↔
      kind = .outcome ∧ word = [] ∨
        kind = .challenge ∧ word ∈ (ahead side challenged).matches' := by
  rw [matches_rounds, matches'_add, Language.mem_add, cons_mem_char, cons_mem_char_mul]

/-- The kind that passes next leads to the place behind it. -/
theorem cons_mem_ahead {side : Role} {place : Place} {kind : Kind} {word : List Kind} :
    kind :: word ∈ (place.ahead side).matches' ↔
      ∃ next, place.next? side kind = some next ∧ word ∈ (next.ahead side).matches' := by
  cases place with
  | opening =>
    rw [ahead, exchange, cons_mem_char_mul]
    cases kind <;> simp [next?, ahead]
  | offered =>
    rw [ahead, cons_mem_char_mul]
    cases kind <;> simp [next?, ahead]
  | chosen | answered =>
    rw [ahead, cons_mem_rounds]
    cases kind <;> simp [next?, ahead, Language.mem_one]
  | challenged =>
    cases side with
    | server =>
      rw [ahead, cons_mem_char_mul]
      cases kind <;> simp [next?, ahead]
    | client =>
      rw [ahead, matches'_add, Language.mem_add, cons_mem_char, cons_mem_char_mul]
      cases kind <;> simp [next?, ahead, Language.mem_one]
  | finished =>
    rw [ahead, matches'_epsilon, Language.mem_one]
    cases kind <;> simp [next?]

/-- From every place the exchange can come to its end. -/
theorem exists_mem_ahead (side : Role) (place : Place) :
    ∃ word, word ∈ (place.ahead side).matches' := by
  have hfinished : [] ∈ (finished.ahead side).matches' := rfl
  have hchosen : [.outcome] ∈ (chosen.ahead side).matches' := cons_mem_ahead.2 ⟨_, rfl, hfinished⟩
  have hoffered : [.init, .outcome] ∈ (offered.ahead side).matches' :=
    cons_mem_ahead.2 ⟨_, rfl, hchosen⟩
  cases place with
  | opening => exact ⟨[.mechanisms, .init, .outcome], cons_mem_ahead.2 ⟨offered, rfl, hoffered⟩⟩
  | offered => exact ⟨_, hoffered⟩
  | chosen | answered => exact ⟨_, hchosen⟩
  | challenged => exact ⟨[.response, .outcome], cons_mem_ahead.2 ⟨answered, rfl, hchosen⟩⟩
  | finished => exact ⟨_, hfinished⟩

/-- A word can go on to a whole exchange if each of its kinds leads on. -/
theorem exists_append_mem_ahead {side : Role} {place : Place} {word : List Kind} :
    (∃ rest, word ++ rest ∈ (place.ahead side).matches') ↔
      ∃ last, word.foldlM (next? side) place = some last := by
  induction word generalizing place with
  | nil => simpa using exists_mem_ahead side place
  | cons kind word ih =>
    simp only [List.cons_append, cons_mem_ahead, List.foldlM_cons, Option.bind_eq_bind,
      Option.bind_eq_some_iff]
    constructor
    · rintro ⟨rest, next, hnext, hrest⟩
      obtain ⟨last, hlast⟩ := ih.1 ⟨rest, hrest⟩
      exact ⟨last, next, hnext, hlast⟩
    · rintro ⟨last, next, hnext, hlast⟩
      obtain ⟨rest, hrest⟩ := ih.2 ⟨last, hlast⟩
      exact ⟨rest, next, hnext, hrest⟩

end Place

theorem begins_iff {side : Role} {word : List Kind} :
    Begins side word ↔ ∃ last, word.foldlM (Place.next? side) .opening = some last :=
  @Place.exists_append_mem_ahead side .opening word

open Session

namespace History

variable {r : History} {side : Role} {place : Place}

theorem Stands.begins (h : r.Stands side place) : Begins side r.word :=
  begins_iff.2 ⟨place, h.word⟩

/-- What may pass next is what leads on from the place. -/
theorem Stands.begins_concat (h : r.Stands side place) (kind : Kind) :
    Begins side (r.word ++ [kind]) ↔ ∃ next, place.next? side kind = some next := by
  simp [begins_iff, List.foldlM_append, h.word]

theorem Stands.accept_iff (h : r.Stands side place) (p : Performative) :
    (on r.session (accept p)).1 = .ok () ↔
      p.kind.sender ≠ side ∧ Begins side (r.word ++ [p.kind]) ∧ p.HasContent := by
  rw [h.begins_concat]
  constructor
  · intro hok
    exact h.session.of_accepts (Prod.ext hok rfl)
  · rintro ⟨hsender, ⟨next, hnext⟩, hcontent⟩
    obtain ⟨s', haccepts, -⟩ := h.session.accepts hsender hnext hcontent
    rw [haccepts.accepted]

theorem Stands.length_verdicts_le (h : r.Stands side place) : r.verdicts.length ≤ 1 := by
  cases side with
  | client => simp [h.client rfl]
  | server =>
    rw [h.server rfl]
    split <;> simp

/-- After any calls in any order: what has passed begins an exchange, each kind in its direction.
What may come in is what goes on with an exchange, and has its content; all else is refused and
changes nothing. There is one verdict at most, and a server's outcome tells it. -/
theorem run_follows_exchange (acts : List Act) :
    let h := run acts
    match h.session.role with
    | none => h.deeds = [] ∧ ∀ p, ∃ fault, on h.session (accept p) = (.error fault, h.session)
    | some side =>
      Begins side h.word ∧ (∀ deed ∈ h.deeds, deed.Directed side) ∧
        (∀ p, (on h.session (accept p)).1 = .ok () ↔
          p.kind.sender ≠ side ∧ Begins side (h.word ++ [p.kind]) ∧ p.HasContent) ∧
        (∀ p fault, (on h.session (accept p)).1 = .error fault →
          (on h.session (accept p)).2 = h.session) ∧
        h.verdicts.length ≤ 1 ∧
        (side = .server →
          ∀ code data, .sent (.outcome code data) ∈ h.deeds → h.verdicts = [code]) := by
  intro h
  rcases run_stands acts with hfresh | ⟨side, place, hstands⟩
  · have hnew : h = {} := hfresh
    rw [hnew]
    exact ⟨rfl, fun p => ⟨.order .receiveUnassigned none .unconfigured p.kind, rfl⟩⟩
  · have hstands : h.Stands side place := hstands
    have hrole : h.session.role = some side := hstands.session.stands.role
    rw [hrole]
    refine ⟨hstands.begins, hstands.directed, hstands.accept_iff, ?_,
      hstands.length_verdicts_le, ?_⟩
    · intro p fault hfault
      exact (accept_error hrole (Prod.ext hfault rfl)).2
    · intro hserver code data hsent
      obtain ⟨hcode, hdecided⟩ := hstands.told hserver code data hsent
      rw [hstands.server hserver, ← hcode, if_neg hdecided]

end History

end FramedSasl
