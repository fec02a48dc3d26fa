import FramedSasl.Proofs.Refusals
import FramedSasl.Proofs.SessionRuns
import FramedSasl.Proofs.StreamReading
import Mathlib.Data.List.DropRight

/-! What became of the payloads of one session, whatever its peer does. What its owner handed over
has gone out or is queued, in order; what came in was received by the owner or is pending, in order.
No bytes are queued without the flag (`Flagged`). A payload that is due is what was queued since the
last one went out, and is absent only if nothing was, not even no bytes. -/

namespace FramedSasl

open Call Performative

/-- The payload that the call queues. A payload without bytes is one. -/
def OwnerCall.queued? : OwnerCall → Option Bytes
  | send data => some data
  | declare _ data => data
  | _ => none

namespace Session

/-! ### The queue -/

/-- No bytes are in the buffer without the flag. -/
def Flagged (s : Session) : Prop := s.hasOutbound = false → s.outbound = []

/-- The payload, if there is one, comes behind what is queued. -/
structure Gains (s : Session) (payload : Option Bytes) (s' : Session) : Prop where
  outbound : s'.outbound = s.outbound ++ payload.getD []
  flag : s'.hasOutbound = (s.hasOutbound || payload.isSome)

variable {s s' : Session} {p : Performative} {payload : Option Bytes}

theorem Flagged.unflagged (h : s.Flagged) : s.unflagged = [] := by
  rcases hflag : s.hasOutbound with _ | _
  · exact (List.append_eq_nil_iff.1 (s.queued_append_unflagged.trans (h hflag))).2
  · exact unflagged_of_flag hflag

theorem Gains.none_of_same (houtbound : s'.outbound = s.outbound)
    (hflag : s'.hasOutbound = s.hasOutbound) : s.Gains none s' where
  outbound := houtbound.trans (List.append_nil _).symm
  flag := hflag.trans (Bool.or_false _).symm

theorem Gains.flagged (h : s.Gains payload s') (hflagged : s.Flagged) : s'.Flagged := by
  intro hnone
  rw [h.flag, Bool.or_eq_false_iff, Option.isSome_eq_false_iff, Option.isNone_iff_eq_none] at hnone
  rw [h.outbound, hflagged hnone.1, hnone.2]
  rfl

/-- With a flag out of step, bytes that were left over would go out with the next payload. -/
theorem Gains.queued (h : s.Gains payload s') (hflagged : s.Flagged) :
    s'.queued = joinPayloads s.queued payload := by
  cases payload with
  | none =>
    rcases hflag : s.hasOutbound with _ | _
    · rw [joinPayloads, queued_eq_none.2 hflag, queued_eq_none, h.flag, hflag]
      rfl
    · have hflag' : s'.hasOutbound = true := by rw [h.flag, hflag]; rfl
      rw [joinPayloads, queued_of_flag hflag, queued_of_flag hflag', h.outbound]
      exact congrArg some (List.append_nil _)
  | some bytes =>
    have hflag' : s'.hasOutbound = true := h.flag.trans (Bool.or_true _)
    have houtbound : s.queued.getD [] = s.outbound := by
      rw [← s.queued_append_unflagged, hflagged.unflagged, List.append_nil]
    rw [queued_of_flag hflag', h.outbound, joinPayloads, houtbound]
    rfl

/-! ### One call -/

theorem payload_of_obeyed {call : OwnerCall} (h : on s call.run = (.ok (), s')) :
    s.Gains call.queued? s' ∧ s'.inbound = s.inbound := by
  rcases hrole : s.role with _ | side
  · cases call with
    | assignRole requested =>
      simp only [OwnerCall.run, assignRole, on_get_bind, hrole] at h
      cases requested <;> cases h
      exact ⟨.none_of_same rfl rfl, rfl⟩
    | setMechanisms | setHostname | send | declare =>
      simp [OwnerCall.run, setMechanisms, setHostname, send, declare, hrole, refuse] at h
  · have hobeys := obey_cases hrole call
    rw [h] at hobeys
    cases hobeys with
    | sameRole | named | asked => exact ⟨.none_of_same rfl rfl, rfl⟩
    | queued => exact ⟨⟨rfl, (Bool.or_true _).symm⟩, rfl⟩
    | declared outcome data =>
      cases data with
      | none => exact ⟨.none_of_same rfl rfl, rfl⟩
      | some data => exact ⟨⟨rfl, (Bool.or_true _).symm⟩, rfl⟩

/-- A list of mechanisms leaves what is queued; every other performative that is due takes it. -/
structure Pays (s : Session) (p : Performative) (s' : Session) : Prop where
  inbound : s'.inbound = s.inbound
  offer : p.kind = .mechanisms → p.payload? = none ∧ s.Gains none s'
  other : p.kind ≠ .mechanisms →
    p.payload? = s.queued ∧ s'.outbound = s.unflagged ∧ s'.hasOutbound = false

theorem nextOutbound_pays (h : on s nextOutbound = (.ok (some p), s')) : s.Pays p s' := by
  obtain ⟨after, phase, hsends, -, rfl⟩ := sends_of_next h
  cases hsends with
  | mechanisms =>
    exact ⟨rfl, fun _ => ⟨rfl, .none_of_same rfl rfl⟩, fun hother => absurd rfl hother⟩
  | init | outcome => exact ⟨rfl, nofun, fun _ => ⟨rfl, rfl, rfl⟩⟩
  | challenge payload _ hqueued | response payload _ hqueued =>
    have hnothing := unflagged_of_flag (flag_of_queued hqueued).1
    exact ⟨rfl, nofun, fun _ => ⟨hqueued.symm, hnothing.symm, rfl⟩⟩

theorem payload_of_accepted (h : on s (accept p) = (.ok (), s')) :
    s.Gains none s' ∧ s'.inbound = s.inbound ++ p.payload?.getD [] := by
  obtain ⟨after, phase, htakes, -, rfl⟩ := takesIn_of_accept h
  cases htakes with
  | mechanisms => exact ⟨.none_of_same rfl rfl, (List.append_nil _).symm⟩
  | init | challenge | response | outcome => exact ⟨.none_of_same rfl rfl, rfl⟩

/-- What `receive` gives its owner. -/
def receipt (s : Session) : Act → List Bytes
  | .receive n => [(s.receive n).1]
  | _ => []

/-- What one call does to the payloads of a session, in whatever state it is. -/
inductive Settles (s : Session) : Act → Session × List Deed → Prop
  | rests {act : Act} (nothing : s.receipt act = []) : Settles s act (s, [])
  | received (n : Nat) : Settles s (.receive n) ((s.receive n).2, [])
  | obeyed {call : OwnerCall} {s' : Session}
      (gains : s.Gains call.queued? s') (inbound : s'.inbound = s.inbound) :
      Settles s (.call call) (s', [.obeyed call])
  | sent {p : Performative} {s' : Session} (pays : s.Pays p s') : Settles s .next (s', [.sent p])
  | accepted {p : Performative} {s' : Session} (gains : s.Gains none s')
      (inbound : s'.inbound = s.inbound ++ p.payload?.getD []) :
      Settles s (.accept p) (s', [.accepted p])

theorem perform_settles (s : Session) (act : Act) : s.Settles act (s.perform act) := by
  cases act with
  | call call =>
    rcases hrun : on s call.run with ⟨fault | _, s'⟩
    · cases atomic_run call s fault s' hrun
      simpa only [perform, hrun] using .rests rfl
    · obtain ⟨hgains, hinbound⟩ := payload_of_obeyed hrun
      simpa only [perform, hrun] using .obeyed hgains hinbound
  | receive n => exact .received n
  | next =>
    rcases hnext : on s nextOutbound with ⟨fault | _ | p, s'⟩
    · cases atomic_nextOutbound s fault s' hnext
      simpa only [perform, hnext] using .rests rfl
    · have hidle := nextOutbound_idle s
      rw [hnext] at hidle
      obtain rfl : s' = s := by simpa [Idle] using hidle
      simpa only [perform, hnext] using .rests rfl
    · simpa only [perform, hnext] using .sent (nextOutbound_pays hnext)
  | accept p =>
    rcases haccept : on s (accept p) with ⟨fault | _, s'⟩
    · cases atomic_accept _ _ _ _ haccept
      simpa only [perform, haccept] using .rests rfl
    · obtain ⟨hgains, hinbound⟩ := payload_of_accepted haccept
      simpa only [perform, haccept] using .accepted hgains hinbound

/-! ### Deeds -/

namespace Deed

def queued? : Deed → Option Bytes
  | obeyed call => call.queued?
  | _ => none

def sent? : Deed → Option Performative
  | sent p => some p
  | _ => none

def accepted? : Deed → Option Performative
  | accepted p => some p
  | _ => none

/-- A performative went out that takes what is queued. -/
def empties : Deed → Bool
  | sent p => p.kind ≠ .mechanisms
  | _ => false

/-- The last of some deeds, behind the last that takes what is queued. -/
def recent (deeds : List Deed) : List Deed := deeds.rtakeWhile fun deed => !deed.empties

variable {deeds : List Deed} {deed : Deed}

theorem recent_of_empties (h : deed.empties = true) : recent (deeds ++ [deed]) = [] :=
  List.rtakeWhile_concat_neg _ _ _ (by simp [h])

theorem recent_of_keeps (h : deed.empties = false) :
    recent (deeds ++ [deed]) = recent deeds ++ [deed] :=
  List.rtakeWhile_concat_pos _ _ _ (by simp [h])

/-- The payload that some deeds queued. -/
def pooled (deeds : List Deed) : Option Bytes := gathered ((recent deeds).map queued?)

theorem pooled_of_empties (h : deed.empties = true) : pooled (deeds ++ [deed]) = none := by
  rw [pooled, recent_of_empties h]
  rfl

theorem pooled_of_keeps (h : deed.empties = false) :
    pooled (deeds ++ [deed]) = joinPayloads (pooled deeds) deed.queued? := by
  rw [pooled, recent_of_keeps h, List.map_append]
  exact gathered_concat _ _

theorem pooled_eq_none : pooled deeds = none ↔ ∀ deed ∈ recent deeds, deed.queued? = none := by
  simp [pooled, gathered]

end Deed

end Session

open Session

namespace History

variable (r : History) (s : Session) (deed : Deed)

/-- What the owner handed over. -/
def given : Bytes := (r.deeds.filterMap Deed.queued?).flatten

/-- The payloads that went out. -/
def emitted : Bytes := ((r.deeds.filterMap Deed.sent?).filterMap payload?).flatten

/-- The payloads that came in. -/
def arrived : Bytes := ((r.deeds.filterMap Deed.accepted?).filterMap payload?).flatten

@[simp] theorem given_concat :
    given ⟨s, r.deeds ++ [deed]⟩ = r.given ++ deed.queued?.getD [] := by
  cases hqueued : deed.queued? <;> simp [given, hqueued]

@[simp] theorem emitted_concat :
    emitted ⟨s, r.deeds ++ [deed]⟩ = r.emitted ++ (deed.sent?.bind payload?).getD [] := by
  rcases hsent : deed.sent? with _ | p
  · simp [emitted, hsent]
  · cases hpayload : p.payload? <;> simp [emitted, hsent, hpayload]

@[simp] theorem arrived_concat :
    arrived ⟨s, r.deeds ++ [deed]⟩ = r.arrived ++ (deed.accepted?.bind payload?).getD [] := by
  rcases haccepted : deed.accepted? with _ | p
  · simp [arrived, haccepted]
  · cases hpayload : p.payload? <;> simp [arrived, haccepted, hpayload]

end History

/-- A history, and what the owner received, call by call. -/
structure Ledger where
  history : History := {}
  receipts : List Bytes := []

namespace Ledger

def perform (l : Ledger) (act : Act) : Ledger :=
  ⟨l.history.perform act, l.receipts ++ l.history.session.receipt act⟩

/-- What a new session leads to. -/
def run (acts : List Act) : Ledger := acts.foldl perform {}

theorem history_run (acts : List Act) : (run acts).history = History.run acts := by
  have hfold : ∀ l : Ledger,
      (acts.foldl perform l).history = acts.foldl History.perform l.history := by
    induction acts with
    | nil => exact fun l => rfl
    | cons act acts ih => exact fun l => ih (l.perform act)
  exact hfold {}

/-- The payload of a performative is what was queued when it went out. -/
def Paid (before : List Deed) (p : Performative) : Prop :=
  p.payload? = if p.kind = .mechanisms then none else Deed.pooled before

/-- No payload has been lost, and none has been made up. -/
structure Balanced (l : Ledger) : Prop where
  outward : l.history.emitted ++ l.history.session.outbound = l.history.given
  inward : l.receipts.flatten ++ l.history.session.inbound = l.history.arrived
  flagged : l.history.session.Flagged
  pooled : l.history.session.queued = Deed.pooled l.history.deeds
  paid : ∀ before p after, l.history.deeds = before ++ .sent p :: after → Paid before p

namespace Balanced

variable {l : Ledger} {s : Session}

theorem new : Balanced {} where
  outward := rfl
  inward := rfl
  flagged _ := rfl
  pooled := rfl
  paid before p after hsplit := by
    cases before <;> cases hsplit

/-- Behind one more deed the performatives that went out are those before, and the one that does. -/
theorem paid_concat {deed : Deed} (h : l.Balanced)
    (hlast : ∀ p, deed = .sent p → Paid l.history.deeds p) :
    ∀ before p after, l.history.deeds ++ [deed] = before ++ .sent p :: after → Paid before p := by
  intro before p after hsplit
  rcases split_concat hsplit with ⟨rfl, hdeed, -⟩ | ⟨after', -, hdeeds⟩
  · exact hlast p hdeed
  · exact h.paid before p after' hdeeds

theorem received (h : l.Balanced) (n : Nat) :
    Balanced ⟨⟨(l.history.session.receive n).2, l.history.deeds⟩,
      l.receipts ++ [(l.history.session.receive n).1]⟩ where
  outward := h.outward
  inward := by
    change (l.receipts ++ [_]).flatten ++ l.history.session.inbound.drop n = l.history.arrived
    rw [List.flatten_append, List.flatten_singleton, List.append_assoc]
    exact (congrArg _ (List.take_append_drop n _)).trans h.inward
  flagged := h.flagged
  pooled := h.pooled
  paid := h.paid

theorem obeyed {call : OwnerCall} (h : l.Balanced)
    (hgains : l.history.session.Gains call.queued? s)
    (hinbound : s.inbound = l.history.session.inbound) :
    Balanced ⟨⟨s, l.history.deeds ++ [.obeyed call]⟩, l.receipts⟩ where
  outward := by
    simp only [History.emitted_concat, History.given_concat, hgains.outbound, ← h.outward]
    simp [Deed.sent?, Deed.queued?]
  inward := by simpa [Deed.accepted?, hinbound] using h.inward
  flagged := hgains.flagged h.flagged
  pooled := by
    rw [Deed.pooled_of_keeps rfl, ← h.pooled]
    exact hgains.queued h.flagged
  paid := h.paid_concat nofun

theorem sent {p : Performative} (h : l.Balanced) (hpays : l.history.session.Pays p s) :
    Balanced ⟨⟨s, l.history.deeds ++ [.sent p]⟩, l.receipts⟩ := by
  have hpaid : Paid l.history.deeds p := by
    unfold Paid
    split
    · next hoffer => exact (hpays.offer hoffer).1
    · next hother => exact (hpays.other hother).1.trans h.pooled
  have hlast : ∀ q, Deed.sent p = .sent q → Paid l.history.deeds q := by
    rintro q ⟨⟩
    exact hpaid
  have hinward : l.receipts.flatten ++ s.inbound = l.history.arrived := by
    rw [hpays.inbound]
    exact h.inward
  by_cases hkind : p.kind = .mechanisms
  · obtain ⟨hnone, hgains⟩ := hpays.offer hkind
    refine ⟨?_, by simpa [Deed.accepted?] using hinward, hgains.flagged h.flagged, ?_,
      h.paid_concat hlast⟩
    · simpa [Deed.sent?, Deed.queued?, hnone, hgains.outbound] using h.outward
    · rw [Deed.pooled_of_keeps (by simp [Deed.empties, hkind]), ← h.pooled]
      exact hgains.queued h.flagged
  · obtain ⟨hpayload, houtbound, hflag⟩ := hpays.other hkind
    refine ⟨?_, by simpa [Deed.accepted?] using hinward, ?_, ?_, h.paid_concat hlast⟩
    · -- what goes out and what stays are what was in the buffer
      have hsplit := l.history.session.queued_append_unflagged
      simpa [Deed.sent?, Deed.queued?, hpayload, houtbound, hsplit] using h.outward
    · exact fun _ => houtbound.trans h.flagged.unflagged
    · rw [Deed.pooled_of_empties (by simp [Deed.empties, hkind])]
      exact queued_eq_none.2 hflag

theorem accepted {p : Performative} (h : l.Balanced) (hgains : l.history.session.Gains none s)
    (hinbound : s.inbound = l.history.session.inbound ++ p.payload?.getD []) :
    Balanced ⟨⟨s, l.history.deeds ++ [.accepted p]⟩, l.receipts⟩ where
  outward := by simpa [Deed.sent?, Deed.queued?, hgains.outbound] using h.outward
  inward := by simp [Deed.accepted?, hinbound, ← h.inward]
  flagged := hgains.flagged h.flagged
  pooled := by
    rw [Deed.pooled_of_keeps rfl, ← h.pooled]
    exact hgains.queued h.flagged
  paid := h.paid_concat nofun

/-- Every call keeps the accounts. -/
theorem perform (h : l.Balanced) (act : Act) : (l.perform act).Balanced := by
  have hsettles := l.history.session.perform_settles act
  rw [Ledger.perform, History.perform]
  generalize l.history.session.perform act = answer at hsettles ⊢
  cases hsettles with
  | rests hnothing => simpa [hnothing] using h
  | received n => simpa [receipt] using h.received n
  | obeyed hgains hinbound => simpa [receipt] using h.obeyed hgains hinbound
  | sent hpays => simpa [receipt] using h.sent hpays
  | accepted hgains hinbound => simpa [receipt] using h.accepted hgains hinbound

end Balanced

theorem run_balanced (acts : List Act) : (run acts).Balanced := by
  have hfold : ∀ l : Ledger, l.Balanced → (acts.foldl perform l).Balanced := by
    induction acts with
    | nil => exact fun l h => h
    | cons act acts ih => exact fun l h => ih _ (h.perform act)
  exact hfold {} .new

/-- After any calls and any performatives of the peer: the payloads that went out and the bytes in
the buffer are those that the owner handed over, what the owner received and what is pending are the
payloads that came in. Without the flag the buffer is empty, and no payload has been handed over
since the last went out; an init and an outcome go without a payload exactly then, and a challenge
and a response do not go at all. -/
theorem run_balances (acts : List Act) :
    let l := run acts
    let r := l.history
    r = History.run acts ∧
      r.emitted ++ r.session.outbound = r.given ∧
      l.receipts.flatten ++ r.session.inbound = r.arrived ∧
      (r.session.hasOutbound = false → r.session.outbound = []) ∧
      (r.session.hasOutbound = false ↔ ∀ deed ∈ Deed.recent r.deeds, deed.queued? = none) ∧
      ∀ before p after, r.deeds = before ++ .sent p :: after →
        (p.kind = .init ∨ p.kind = .outcome →
          (p.payload? = none ↔ ∀ deed ∈ Deed.recent before, deed.queued? = none)) ∧
        (p.kind = .challenge ∨ p.kind = .response →
          ∃ deed ∈ Deed.recent before, deed.queued? ≠ none) := by
  intro l r
  have hbalanced : l.Balanced := run_balanced acts
  refine ⟨history_run acts, hbalanced.outward, hbalanced.inward, hbalanced.flagged, ?_, ?_⟩
  · rw [← queued_eq_none, hbalanced.pooled, Deed.pooled_eq_none]
  · intro before p after hsplit
    have hpaid := hbalanced.paid before p after hsplit
    constructor
    · intro hkind
      have hother : p.kind ≠ .mechanisms := by rcases hkind with h | h <;> rw [h] <;> decide
      rw [hpaid, if_neg hother, Deed.pooled_eq_none]
    · intro hkind
      have hother : p.kind ≠ .mechanisms := by rcases hkind with h | h <;> rw [h] <;> decide
      have hsome : p.payload? ≠ none := by
        cases p <;> simp [Performative.kind] at hkind <;> exact Option.some_ne_none _
      rw [hpaid, if_neg hother, ne_eq, Deed.pooled_eq_none] at hsome
      simpa using hsome

end Ledger

end FramedSasl
